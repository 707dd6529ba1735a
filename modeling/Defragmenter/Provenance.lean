import Defragmenter.Moves
import Defragmenter.Runs

/-! Where the sender's bookkeeping comes from. Whatever the base library
answers, every live record in the receipt table names a part that went out
under its number, and every part that went out belongs to its own message and
was addressed to that message's friend. -/
namespace Defragmenter.Provenance
open Database Split Receipts Sender Moves Runs Marker

/-- The state `initialize` leaves behind when the store is empty. -/
def initialState (w : World) : State where
  receipts := receiptsInitialize
  lastReceipt := w.params.receiptRangeLo
  markerMaxSizeEver := markerMaxSizeBytes (2 ^ 31 - 1) (2 ^ 31 - 1)

theorem started_initialState (w : World) : Started w (initialState w) := rfl

theorem started_iff {w : World} {s : State} : Started w s ↔ s = initialState w := by
  have loaded : initializeBoth w {} = .ok (initialState w) := started_initialState w
  rw [Started, loaded, Except.ok.injEq]
  exact eq_comm

/-- Nothing that identifies the message has changed. -/
structure SameShape (m m' : MsgOutbound) : Prop where
  friendNumber : m'.friendNumber = m.friendNumber
  id : m'.id = m.id
  numParts : m'.numParts = m.numParts
  fragments : m'.fragments.length = m.fragments.length

variable {m m' : MsgOutbound} {i receipt partNo : Nat}

theorem SameShape.trans {m'' : MsgOutbound} (first : SameShape m m') (second : SameShape m' m'') :
    SameShape m m'' where
  friendNumber := second.friendNumber.trans first.friendNumber
  id := second.id.trans first.id
  numParts := second.numParts.trans first.numParts
  fragments := second.fragments.trans first.fragments

theorem sameShape_partSent : SameShape m (partSent m i receipt) :=
  ⟨rfl, rfl, rfl, List.length_modify ..⟩

theorem sameShape_sentLast : SameShape m { partSent m i receipt with lastSent := i } :=
  ⟨rfl, rfl, rfl, List.length_modify ..⟩

theorem sameShape_partLost : SameShape m (partLost m) := ⟨rfl, rfl, rfl, rfl⟩

theorem sameShape_partConfirmed : SameShape m (partConfirmed m partNo) :=
  ⟨rfl, rfl, rfl, List.length_modify ..⟩

/-- The part went out in a call that the base library answered with this number. -/
def SentAs (w : World) (s : State) (msg partNo receipt : Nat) : Prop :=
  ∃ i call, s.base[i]? = some call ∧ call.part = some (msg, partNo) ∧ w.answer i = receipt

structure Issued (w : World) (s : State) : Prop where
  below : ∀ {a : Nat} {m : MsgOutbound}, s.heap a = some m → a < s.fresh
  shaped : ∀ {a : Nat} {m : MsgOutbound}, s.heap a = some m → m.fragments.length = m.numParts ∧ m.numParts < 2 ^ 32
  called : ∀ {i : Nat} {call : BaseCall} {a p : Nat}, s.base[i]? = some call → call.part = some (a, p) → a < s.fresh ∧ 0 < p
  addressed : ∀ {i : Nat} {call : BaseCall} {a p : Nat} {m : MsgOutbound},
    s.base[i]? = some call → call.part = some (a, p) → s.heap a = some m →
      call.friendNumber = m.friendNumber ∧ p ≤ m.numParts
  recorded : ∀ k, s.receipts.key k ≠ 0 →
    SentAs w s (s.receipts.receipts k).msg (s.receipts.receipts k).partNo (s.receipts.key k)

variable {w : World} {s : State} {msg : Nat}

theorem getElem?_snoc {α : Type} {l : List α} {x y : α} {i : Nat}
    (found : (l ++ [x])[i]? = some y) : l[i]? = some y ∨ i = l.length ∧ y = x := by
  rcases Nat.lt_or_ge i l.length with inside | beyond
  · rw [List.getElem?_append_left inside] at found
    exact .inl found
  · rw [List.getElem?_append_right beyond] at found
    obtain ⟨last, same⟩ := List.getElem?_eq_some_iff.mp found
    simp only [List.length_cons, List.length_nil] at last
    refine .inr ⟨by omega, ?_⟩
    simp only [List.getElem_singleton] at same
    exact same.symm

theorem getElem?_snoc_of {α : Type} {l : List α} {x y : α} {i : Nat} (found : l[i]? = some y) :
    (l ++ [x])[i]? = some y := by
  rw [List.getElem?_append_left (List.getElem?_eq_some_iff.mp found).1]
  exact found

/-- Calls are only ever added to the log. -/
theorem base_grows {admitted : Label → Prop} {v v' : View} (chain : Chain w admitted v v')
    {i : Nat} {call : BaseCall} (found : v.s.base[i]? = some call) : v'.s.base[i]? = some call := by
  refine chain.invariant (I := fun v => v.s.base[i]? = some call) ?_ found
  intro label v v' _ move before
  cases move with
  | idle | passed | begun | opened | dropped | confirmed | completed | cleared => exact before
  | short | firstRefused | firstSent | nextRefused | nextSent | failedRefused | failedSent | lost
  | resent => exact getElem?_snoc_of before

/-- What went out stays in the log. -/
theorem SentAs.snoc {call : BaseCall} {partNo receipt : Nat} (sent : SentAs w s msg partNo receipt) :
    SentAs w { s with base := s.base ++ [call] } msg partNo receipt := by
  obtain ⟨i, call', found, part, answered⟩ := sent
  exact ⟨i, call', getElem?_snoc_of found, part, answered⟩

theorem SentAs.chain {admitted : Label → Prop} {v v' : View} {partNo receipt : Nat}
    (chain : Chain w admitted v v') (sent : SentAs w v.s msg partNo receipt) :
    SentAs w v'.s msg partNo receipt := by
  obtain ⟨i, call, at_i, rest⟩ := sent
  exact ⟨i, call, base_grows chain at_i, rest⟩

namespace Issued

theorem initial : Issued w (initialState w) where
  below found := by cases found
  shaped found := by cases found
  called found := by cases found
  addressed found := by cases found
  recorded _ held := absurd rfl held

/-- A call is made: one for a part is for a part of a message that has its address. -/
theorem call (issued : Issued w s) {c : BaseCall}
    (own : ∀ a p, c.part = some (a, p) → a < s.fresh ∧ 0 < p ∧
      ∀ m, s.heap a = some m → c.friendNumber = m.friendNumber ∧ p ≤ m.numParts) :
    Issued w { s with base := s.base ++ [c] } where
  below := issued.below
  shaped := issued.shaped
  called found part := by
    rcases getElem?_snoc found with earlier | ⟨_, rfl⟩
    · exact issued.called earlier part
    · have := own _ _ part
      exact ⟨this.1, this.2.1⟩
  addressed found part here := by
    rcases getElem?_snoc found with earlier | ⟨_, rfl⟩
    · exact issued.addressed earlier part here
    · exact (own _ _ part).2.2 _ here
  recorded k held := (issued.recorded k held).snoc

/-- Only the calls, the messages, their addresses and the table matter. -/
theorem frame (issued : Issued w s) {s' : State} (base : s'.base = s.base) (heap : s'.heap = s.heap)
    (fresh : s'.fresh = s.fresh) (receipts : s'.receipts = s.receipts) : Issued w s' := by
  obtain ⟨below, shaped, called, addressed, recorded⟩ := issued
  constructor <;> simp only [SentAs, base, heap, fresh, receipts] <;> assumption

theorem update (issued : Issued w s) (found : s.heap msg = some m) (shape : SameShape m m') :
    Issued w { s with heap := Function.update s.heap msg (some m') } where
  below here := by
    rcases heap_update_iff.mp here with ⟨rfl, _⟩ | ⟨_, here⟩
    · exact issued.below found
    · exact issued.below here
  shaped here := by
    rcases heap_update_iff.mp here with ⟨rfl, same⟩ | ⟨_, here⟩
    · cases same
      rw [shape.fragments, shape.numParts]
      exact issued.shaped found
    · exact issued.shaped here
  called := issued.called
  addressed at_i part here := by
    rcases heap_update_iff.mp here with ⟨rfl, same⟩ | ⟨_, here⟩
    · cases same
      rw [shape.friendNumber, shape.numParts]
      exact issued.addressed at_i part found
    · exact issued.addressed at_i part here
  recorded := issued.recorded

theorem erase (issued : Issued w s) (msg : Nat) : Issued w (msgOutboundDelete s msg) where
  below here := by
    rcases heap_update_iff.mp here with ⟨_, none⟩ | ⟨_, here⟩
    · cases none
    · exact issued.below here
  shaped here := by
    rcases heap_update_iff.mp here with ⟨_, none⟩ | ⟨_, here⟩
    · cases none
    · exact issued.shaped here
  called := issued.called
  addressed at_i part here := by
    rcases heap_update_iff.mp here with ⟨_, none⟩ | ⟨_, here⟩
    · cases none
    · exact issued.addressed at_i part here
  recorded := issued.recorded

/-- A message at a new address, to which nothing was sent yet. -/
theorem allocate (issued : Issued w s)
    (shape : m.fragments.length = m.numParts ∧ m.numParts < 2 ^ 32) : Issued w (s.alloc m) where
  below here := by
    rcases heap_update_iff.mp here with ⟨rfl, _⟩ | ⟨_, here⟩
    · exact Nat.lt_succ_self _
    · exact Nat.lt_succ_of_lt (issued.below here)
  shaped here := by
    rcases heap_update_iff.mp here with ⟨_, same⟩ | ⟨_, here⟩
    · cases same
      exact shape
    · exact issued.shaped here
  called at_i part := by
    have earlier := issued.called at_i part
    exact ⟨Nat.lt_succ_of_lt earlier.1, earlier.2⟩
  addressed at_i part here := by
    rcases heap_update_iff.mp here with ⟨rfl, _⟩ | ⟨_, here⟩
    · exact absurd (issued.called at_i part).1 (Nat.lt_irrefl _)
    · exact issued.addressed at_i part here
  recorded := issued.recorded

/-- The table may be replaced by one whose live records all have gone out. -/
theorem retable (issued : Issued w s) {t : ReceiptTable} (known : ∀ k, t.key k ≠ 0 →
    t.receipts k ∈ Set.range s.receipts.receipts ∨
      SentAs w s (t.receipts k).msg (t.receipts k).partNo (t.key k)) :
    Issued w { s with receipts := t } where
  below := issued.below
  shaped := issued.shaped
  called := issued.called
  addressed := issued.addressed
  recorded k held := by
    rcases known k held with ⟨k', same⟩ | sent
    · have key : t.key k = s.receipts.key k' := by
        change (t.receipts k).receipt = (s.receipts.receipts k').receipt
        rw [← same]
      have held' : s.receipts.key k' ≠ 0 := key ▸ held
      have sent := issued.recorded k' held'
      rw [same, ← key] at sent
      exact sent
    · exact sent

/-- Clearing a slot takes a live record away. -/
theorem clear (issued : Issued w s) {t : ReceiptTable} {j : Nat}
    (cleared : t.receipts = (s.receipts.clear j).receipts) : Issued w { s with receipts := t } := by
  apply issued.retable
  intro k held
  have different : k ≠ j := by
    rintro rfl
    have empty : t.key k = 0 := by
      change (t.receipts k).receipt = 0
      rw [cleared]
      exact (ReceiptTable.key_clear).trans (if_pos rfl)
    exact held empty
  refine .inl ⟨k, ?_⟩
  rw [cleared]
  exact (ReceiptTable.receipts_clear_ne different).symm

theorem refused (issued : Issued w s) (found : s.heap msg = some m) (inside : i < m.numParts) :
    Issued w (refusedState s msg m i) := by
  apply issued.call
  intro a p part
  cases part
  refine ⟨issued.below found, Nat.succ_pos i, fun m' here => ?_⟩
  rw [found] at here
  cases here
  exact ⟨rfl, inside⟩

theorem sent (issued : Issued w s) (found : s.heap msg = some m) (inside : i < m.numParts)
    (shape : SameShape m m') : Issued w (sentState w s msg m i m') := by
  have called := (issued.refused found inside).update found shape
  have recorded : Issued w { refusedState s msg m i with
      heap := Function.update s.heap msg (some m')
      receipts := s.receipts.addReceipt ⟨w.answer s.base.length, msg, i + 1, w.clock s.ticks⟩ } := by
    apply called.retable
    intro k held
    rcases ReceiptTable.receipts_addReceipt s.receipts
      ⟨w.answer s.base.length, msg, i + 1, w.clock s.ticks⟩ k with new | empty | ⟨k', old⟩
    · right
      rw [ReceiptTable.key, new]
      exact ⟨s.base.length, partCall msg m i, List.getElem?_concat_length, rfl, rfl⟩
    · rw [ReceiptTable.key, empty] at held
      exact absurd rfl held
    · exact .inl ⟨k', old.symm⟩
  exact recorded.frame rfl rfl rfl rfl

/-- The part of a live record is one of its message's. -/
theorem part (issued : Issued w s) {k : Nat} (held : s.receipts.key k ≠ 0)
    (found : s.heap (s.receipts.receipts k).msg = some m) :
    0 < (s.receipts.receipts k).partNo ∧ (s.receipts.receipts k).partNo ≤ m.numParts := by
  obtain ⟨i, call, at_i, part, _⟩ := issued.recorded k held
  exact ⟨(issued.called at_i part).2, (issued.addressed at_i part found).2⟩

theorem index (issued : Issued w s) {k : Nat} (held : s.receipts.key k ≠ 0)
    (found : s.heap (s.receipts.receipts k).msg = some m) : (s.receipts.receipts k).partNo - 1 < m.numParts := by
  have number := issued.part held found
  omega

theorem place (issued : Issued w s) {k : Nat} (held : s.receipts.key k ≠ 0)
    (found : s.heap (s.receipts.receipts k).msg = some m) :
    (s.receipts.receipts k).partNo - 1 < m.fragments.length :=
  (issued.shaped found).1 ▸ issued.index held found

theorem lost (issued : Issued w s) (j : Nat) (found : s.heap msg = some m) :
    Issued w (lostState s j msg m) :=
  (issued.update found sameShape_partLost).clear rfl

theorem move {label : Label} {v v' : View} (issued : Issued w v.s) (move : Move w label v v') :
    Issued w v'.s := by
  cases move with
  | idle => exact issued.frame rfl rfl rfl rfl
  | short none =>
    apply issued.call
    intro a p part
    rw [none] at part
    cases part
  | passed => exact issued.frame rfl rfl rfl rfl
  | @begun s friendNumber _ m _ split =>
    have unsent := unsent_of_split split
    have shape : ({ m with friendNumber } : MsgOutbound).fragments.length = m.numParts := unsent.shaped
    exact (issued.allocate ⟨shape, unsent.small⟩).frame rfl rfl rfl rfl
  | @opened s msg receipt type _ m _ found =>
    have shape : SameShape m { m with type, receipt } := ⟨rfl, rfl, rfl, rfl⟩
    exact (issued.update found shape).frame rfl rfl rfl rfl
  | dropped => exact issued.erase _
  | firstRefused found inside | nextRefused found inside | failedRefused found inside =>
    exact issued.refused found inside
  | firstSent found inside | nextSent found inside =>
    exact issued.sent found inside sameShape_sentLast
  | failedSent found inside => exact issued.sent found inside sameShape_partSent
  | @lost s _ j m held _ found =>
    have issued : Issued w s := issued
    have inside : (s.receipts.receipts j).partNo - 1 < m.numParts := issued.index held found
    exact (issued.lost j found).refused (Function.update_self ..) inside
  | @resent s _ j m held _ found =>
    have issued : Issued w s := issued
    have inside : (s.receipts.receipts j).partNo - 1 < m.numParts := issued.index held found
    exact (issued.lost j found).sent (Function.update_self ..) inside sameShape_partSent
  | confirmed _ _ _ found =>
    exact (issued.update found sameShape_partConfirmed).frame rfl rfl rfl rfl
  | @completed s _ _ j => exact (issued.erase (s.receipts.receipts j).msg).frame rfl rfl rfl rfl
  | cleared => exact issued.clear ReceiptTable.receipts_trim

theorem step {op : Op} {s' : State} (issued : Issued w s) (proper : Proper op)
    (ran : Sender.step w op s = .ok s') : Issued w s' :=
  (step_chain proper ran).invariant (I := fun v => Issued w v.s) (fun _ move before => before.move move)
    issued

theorem run {guard : State → Op → Prop} {ops : List Op} (run : Run (Sender.step w) guard (Started w) ops s)
    (proper : ∀ s op, guard s op → Proper op) : Issued w s := by
  refine run.invariant (I := Issued w) (fun s started => ?_) fun s op s' before guarded ran =>
    before.step (proper s op guarded) ran
  rw [started_iff.mp started]
  exact .initial

end Issued

end Defragmenter.Provenance
