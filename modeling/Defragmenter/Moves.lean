import Mathlib.Logic.Relation
import Defragmenter.Sender

/-! What the sending half can do, said once. Every call is a chain of moves,
each of them one thing that happens to a message, to the receipt table or to
the outside. An invariant of all runs is proved with one case per move; the
loops of the code are taken apart here and nowhere else. -/
namespace Defragmenter.Moves
open Database Split Receipts Sender Marker Decimal

/-- A state within a call: the slot whose receipt is being processed, and the
message `friend_send_message_long` is building, with its bytes. -/
structure View where
  s : State
  taken : Option Nat := none
  forming : Option (Nat × List UInt8) := none

/-- Who makes the move: the loop of a first window, the two loops of
`msgSendNextParts` for a message, an expiry pass, the rest of a call. -/
inductive Label where
  | outside
  | form
  | first
  | next (msg : Nat)
  | failed (msg : Nat)
  | expiry (now : Nat)
  | receipt (friendNumber messageId : Nat)
  deriving DecidableEq

/-- The state once a long message is split and has its address. -/
def begunState (w : World) (s : State) (friendNumber : Nat) (m : MsgOutbound) : State :=
  { s with
    ticks := s.ticks + 1
    lastMsgId := max (w.clock s.ticks) (s.lastMsgId + 1)
    fresh := s.fresh + 1
    heap := Function.update s.heap s.fresh (some { m with friendNumber }) }

/-- The state once a fragment was refused. -/
def refusedState (s : State) (msg : Nat) (m : MsgOutbound) (i : Nat) : State :=
  { s with base := s.base ++ [partCall msg m i] }

/-- The state once a fragment went out, its message then being `m'`. -/
def sentState (w : World) (s : State) (msg : Nat) (m : MsgOutbound) (i : Nat) (m' : MsgOutbound) :
    State :=
  { s with
    base := s.base ++ [partCall msg m i]
    ticks := s.ticks + 1
    receipts := s.receipts.addReceipt ⟨w.answer s.base.length, msg, i + 1, w.clock s.ticks⟩
    heap := Function.update s.heap msg (some m') }

/-- The state once the record in slot `j` expired. -/
def lostState (s : State) (j : Nat) (msg : Nat) (m : MsgOutbound) : State :=
  { s with
    receipts := { s.receipts.clear j with num := s.receipts.num - 1 }
    heap := Function.update s.heap msg (some (partLost m)) }

/-- Fragment `i` of the message, blank past the end. -/
def part (m : MsgOutbound) (i : Nat) : Fragment := m.fragments.getD i {}

/-- Fragment `i` was never sent, or its failure was noticed, and it is not confirmed. -/
def Blank (m : MsgOutbound) (i : Nat) : Prop :=
  (part m i).receipt = 0 ∧ (part m i).confirmed = false

/-- Nothing being refused, the message has a full window or no part left to go on with. -/
def Sated (w : World) (m : MsgOutbound) : Prop :=
  (∀ n, w.answer n ≠ 0) →
    w.params.fragmentsAtATime ≤ m.numTransit ∨ m.numParts ≤ m.lastSent + 1

/-- The lookup of a number does not end at a record of it. -/
def NotFound (t : ReceiptTable) (messageId : Nat) : Prop :=
  ∀ j, t.findReceipt messageId = some j → t.key j ≠ messageId

def InRange (params : Params) (receipt : Nat) : Prop :=
  params.receiptRangeLo ≤ receipt ∧ receipt ≤ params.receiptRangeHi

instance {params : Params} {receipt : Nat} : Decidable (InRange params receipt) :=
  inferInstanceAs (Decidable (_ ∧ _))

/-- The state once a long message has its number and is in the list and in the store. -/
def openedState (s : State) (msg : Nat) (m : MsgOutbound) (type : Int) (message : List UInt8)
    (receipt : Nat) (db : Db) : State :=
  { s with
    lastReceipt := receipt
    heap := Function.update s.heap msg (some { m with type, receipt })
    msgsOutbound := msgsOutboundLink s.msgsOutbound msg
    db
    events := .returned msg m.friendNumber m.id message receipt :: s.events }

/-- The state once the part of the record in slot `j` is confirmed. -/
def confirmedState (s : State) (j : Nat) (m : MsgOutbound) (db : Db) : State :=
  { s with
    ticks := s.ticks + 1
    heap := Function.update s.heap (s.receipts.receipts j).msg
      (some (partConfirmed m (s.receipts.receipts j).partNo))
    db
    events := .confirmed (s.receipts.receipts j).msg (s.receipts.receipts j).partNo
      (s.receipts.key j) :: s.events }

/-- The state once the message is complete. -/
def completedState (s : State) (msg : Nat) (m : MsgOutbound) : State :=
  { s with
    events := .completed msg m.friendNumber m.receipt :: s.events
    db := dbClearOutboundPending s.db m.friendNumber m.id
    msgsOutbound := msgsOutboundUnlink s.msgsOutbound msg
    heap := Function.update s.heap msg none }

/-- The state once slot `j` is cleared and the ends of the table have moved in. -/
def clearedState (s : State) (j : Nat) : State :=
  { s with receipts := (s.receipts.clear j).trim j }

inductive Move (w : World) : Label → View → View → Prop where
  | idle {v : View} {ticks polls : Nat} : v.s.ticks ≤ ticks →
      Move w .outside v { v with s := { v.s with ticks, polls } }
  | short {v : View} {call : BaseCall} : call.part = none →
      Move w .outside v { v with s := { v.s with base := v.s.base ++ [call] } }
  | passed {s : State} {friendNumber receipt : Nat} :
      NotFound s.receipts receipt → ¬ InRange w.params receipt →
      Move w (.receipt friendNumber receipt) ⟨s, none, none⟩
        ⟨{ s with events := .passed friendNumber receipt :: s.events }, none, none⟩
  | begun {s : State} {friendNumber : Nat} {message : List UInt8} {m : MsgOutbound} :
      w.params.maxMessageLength < message.length →
      splitMessage s.markerMaxSizeEver message w.params.maxMessageLength
        (max (w.clock s.ticks) (s.lastMsgId + 1)) = .ok m →
      Move w .form ⟨s, none, none⟩
        ⟨begunState w s friendNumber m, none, some (s.fresh, message)⟩
  | opened {s : State} {msg receipt : Nat} {type : Int} {message : List UInt8} {m : MsgOutbound}
      {db : Db} : s.heap msg = some m → 0 < m.numTransit → Sated w m →
      avoidPending w.params s.pending (s.msgsOutbound.length + 1)
        (nextReceiptNo w.params s.lastReceipt) = .ok receipt →
      dbInsertOutboundMessage w.limit s.db m.friendNumber type m.id m.id m.numParts message receipt =
        .ok db →
      Move w .form ⟨s, none, some (msg, message)⟩
        ⟨openedState s msg m type message receipt db, none, none⟩
  | dropped {s : State} {msg : Nat} {message : List UInt8} {m : MsgOutbound} :
      s.heap msg = some m → m.numTransit = 0 →
      Move w .form ⟨s, none, some (msg, message)⟩ ⟨msgOutboundDelete s msg, none, none⟩
  | firstRefused {s : State} {msg i : Nat} {message : List UInt8} {m : MsgOutbound} :
      s.heap msg = some m → i < m.numParts → m.numTransit < w.params.fragmentsAtATime →
      Blank m i → w.answer s.base.length = 0 →
      Move w .first ⟨s, none, some (msg, message)⟩
        ⟨refusedState s msg m i, none, some (msg, message)⟩
  | firstSent {s : State} {msg i : Nat} {message : List UInt8} {m : MsgOutbound} :
      s.heap msg = some m → i < m.numParts → m.numTransit < w.params.fragmentsAtATime →
      Blank m i → m.lastSent ≤ i → w.answer s.base.length ≠ 0 →
      Move w .first ⟨s, none, some (msg, message)⟩
        ⟨sentState w s msg m i
          { partSent m i (w.answer s.base.length) with lastSent := i }, none, some (msg, message)⟩
  | nextRefused {s : State} {taken : Option Nat} {msg i : Nat} {m : MsgOutbound} :
      s.heap msg = some m → i < m.numParts → m.numTransit < w.params.fragmentsAtATime →
      m.lastSent < i → w.answer s.base.length = 0 →
      Move w (.next msg) ⟨s, taken, none⟩ ⟨refusedState s msg m i, taken, none⟩
  | nextSent {s : State} {taken : Option Nat} {msg i : Nat} {m : MsgOutbound} :
      s.heap msg = some m → i < m.numParts → m.numTransit < w.params.fragmentsAtATime →
      m.lastSent < i → w.answer s.base.length ≠ 0 →
      Move w (.next msg) ⟨s, taken, none⟩
        ⟨sentState w s msg m i
          { partSent m i (w.answer s.base.length) with lastSent := i }, taken, none⟩
  | failedRefused {s : State} {taken : Option Nat} {msg i : Nat} {m : MsgOutbound} :
      s.heap msg = some m → i < m.numParts → m.numTransit < w.params.fragmentsAtATime →
      Blank m i → w.answer s.base.length = 0 →
      Move w (.failed msg) ⟨s, taken, none⟩ ⟨refusedState s msg m i, taken, none⟩
  | failedSent {s : State} {taken : Option Nat} {msg i : Nat} {m : MsgOutbound} :
      s.heap msg = some m → i < m.numParts → m.numTransit < w.params.fragmentsAtATime →
      Blank m i → w.answer s.base.length ≠ 0 →
      Move w (.failed msg) ⟨s, taken, none⟩
        ⟨sentState w s msg m i (partSent m i (w.answer s.base.length)), taken, none⟩
  | lost {s : State} {now j : Nat} {m : MsgOutbound} :
      s.receipts.key j ≠ 0 → expired w now (s.receipts.receipts j) = true →
      s.heap (s.receipts.receipts j).msg = some m → w.answer s.base.length = 0 →
      Move w (.expiry now) ⟨s, none, none⟩
        ⟨refusedState (lostState s j (s.receipts.receipts j).msg m) (s.receipts.receipts j).msg
          (partLost m) ((s.receipts.receipts j).partNo - 1), none, none⟩
  | resent {s : State} {now j : Nat} {m : MsgOutbound} :
      s.receipts.key j ≠ 0 → expired w now (s.receipts.receipts j) = true →
      s.heap (s.receipts.receipts j).msg = some m → w.answer s.base.length ≠ 0 →
      Move w (.expiry now) ⟨s, none, none⟩
        ⟨sentState w (lostState s j (s.receipts.receipts j).msg m) (s.receipts.receipts j).msg
          (partLost m) ((s.receipts.receipts j).partNo - 1)
          (partSent (partLost m) ((s.receipts.receipts j).partNo - 1) (w.answer s.base.length)),
          none, none⟩
  | confirmed {s : State} {friendNumber messageId j : Nat} {m : MsgOutbound} {db : Db} :
      messageId ≠ 0 → s.receipts.findReceipt messageId = some j → s.receipts.key j = messageId →
      s.heap (s.receipts.receipts j).msg = some m →
      dbOutboundPartConfirmed s.db m.friendNumber m.id (s.receipts.receipts j).partNo
        (w.clock s.ticks) = .ok db →
      Move w (.receipt friendNumber messageId) ⟨s, none, none⟩
        ⟨confirmedState s j m db, some j, none⟩
  | completed {s : State} {friendNumber messageId j : Nat} {m : MsgOutbound} :
      s.heap (s.receipts.receipts j).msg = some m → m.numParts ≤ m.numConfirmed →
      Move w (.receipt friendNumber messageId) ⟨s, some j, none⟩
        ⟨completedState s (s.receipts.receipts j).msg m, some j, none⟩
  | cleared {s : State} {friendNumber messageId j : Nat} :
      Move w (.receipt friendNumber messageId) ⟨s, some j, none⟩ ⟨clearedState s j, none, none⟩

/-- A chain of moves of the admitted kinds. -/
def Chain (w : World) (admitted : Label → Prop) : View → View → Prop :=
  Relation.ReflTransGen fun v v' => ∃ label, admitted label ∧ Move w label v v'

variable {w : World} {admitted admitted' : Label → Prop} {v v' v'' : View}

theorem Chain.refl : Chain w admitted v v := Relation.ReflTransGen.refl

theorem Chain.single {label : Label} (ok : admitted label) (move : Move w label v v') :
    Chain w admitted v v' :=
  Relation.ReflTransGen.single ⟨label, ok, move⟩

theorem Chain.trans (first : Chain w admitted v v') (second : Chain w admitted v' v'') :
    Chain w admitted v v'' :=
  Relation.ReflTransGen.trans first second

theorem Chain.cons {label : Label} (ok : admitted label) (move : Move w label v v')
    (rest : Chain w admitted v' v'') : Chain w admitted v v'' :=
  Chain.trans (.single ok move) rest

/-- What every admitted move keeps, every chain of them keeps. -/
theorem Chain.invariant {I : View → Prop} (chain : Chain w admitted v v')
    (keep : ∀ {label v v'}, admitted label → Move w label v v' → I v → I v') (holds : I v) :
    I v' := by
  induction chain with
  | refl => exact holds
  | tail _ move ih =>
    obtain ⟨label, ok, move⟩ := move
    exact keep ok move ih

theorem Chain.mono (chain : Chain w admitted v v')
    (implies : ∀ label, admitted label → admitted' label) : Chain w admitted' v v' :=
  chain.invariant (I := Chain w admitted' v)
    (fun ok move before => before.trans (.single (implies _ ok) move)) .refl

/-! ## The code makes moves -/

theorem heap_update_iff {heap : Nat → Option MsgOutbound} {a msg : Nat} {m : MsgOutbound}
    {here : Option MsgOutbound} : Function.update heap msg here a = some m ↔
      a = msg ∧ here = some m ∨ a ≠ msg ∧ heap a = some m := by
  by_cases same : a = msg
  · subst same
    simp
  · simp [same]

theorem msgAt_ok {s : State} {msg : Nat} {m : MsgOutbound} :
    s.msgAt msg = .ok m ↔ s.heap msg = some m := by
  unfold State.msgAt
  cases s.heap msg <;> simp

theorem msgSendPart_eq {s : State} {msg i : Nat} {m : MsgOutbound} (found : s.heap msg = some m) :
    msgSendPart w s msg i = .ok (if w.answer s.base.length = 0 then (refusedState s msg m i, false)
      else (sentState w s msg m i (partSent m i (w.answer s.base.length)), true)) := by
  rw [msgSendPart, msgAt_ok.mpr found]
  by_cases refused : w.answer s.base.length = 0
  · simp only [toxFriendSendMessage, refused, ↓reduceIte]
    rfl
  · simp only [toxFriendSendMessage, refused, ↓reduceIte]
    rfl

@[simp] theorem sentState_heap {s : State} {msg i : Nat} {m m' : MsgOutbound} :
    (sentState w s msg m i m').heap msg = some m' := by
  simp [sentState]

theorem part_partSent {m : MsgOutbound} {i k receipt : Nat} (inside : i < m.fragments.length) :
    part (partSent m i receipt) k = if k = i then
      { part m i with receipt := receipt, timesSent := (part m i).timesSent + 1 } else part m k := by
  by_cases same : k = i
  · subst same
    simp [part, partSent, List.getD_eq_getElem?_getD, inside]
  · simp [part, partSent, List.getD_eq_getElem?_getD, same, Ne.symm same]

theorem part_partConfirmed {m : MsgOutbound} {k partNo : Nat}
    (inside : partNo - 1 < m.fragments.length) :
    part (partConfirmed m partNo) k = if k = partNo - 1 then
      { part m k with receipt := 0, confirmed := true, data := none } else part m k := by
  by_cases same : k = partNo - 1
  · subst same
    simp [part, partConfirmed, List.getD_eq_getElem?_getD, inside]
  · simp [part, partConfirmed, List.getD_eq_getElem?_getD, same, Ne.symm same]

/-- One round of the loops that move `lastSent` along. -/
theorem sendFrom_succ {s : State} {msg i count : Nat} {m : MsgOutbound}
    (found : s.heap msg = some m) :
    sendFrom w msg (count + 1) i s =
      if m.numTransit < w.params.fragmentsAtATime then
        if w.answer s.base.length = 0 then sendFrom w msg count (i + 1) (refusedState s msg m i)
        else sendFrom w msg count (i + 1) (sentState w s msg m i
          { partSent m i (w.answer s.base.length) with lastSent := i })
      else .ok s := by
  rw [sendFrom, msgAt_ok.mpr found]
  simp only [bind, Except.bind]
  by_cases room : m.numTransit < w.params.fragmentsAtATime
  · rw [if_pos room, if_pos room, msgSendPart_eq found]
    by_cases refused : w.answer s.base.length = 0
    · simp only [refused, ↓reduceIte, Bool.false_eq_true]
    · simp only [refused, ↓reduceIte]
      rw [msgAt_ok.mpr sentState_heap]
      simp only [State.setMsg, sentState, Function.update_idem]
  · rw [if_neg room, if_neg room]
    rfl

theorem sendFrom_next (taken : Option Nat) {msg count : Nat} :
    ∀ {i : Nat} {s s' : State} {m : MsgOutbound}, s.heap msg = some m → m.lastSent < i →
      ((∀ n, w.answer n ≠ 0) → i ≤ m.lastSent + 1) → i + count = m.numParts →
      sendFrom w msg count i s = .ok s' →
      Chain w (· = .next msg) ⟨s, taken, none⟩ ⟨s', taken, none⟩ ∧
        ∃ m', s'.heap msg = some m' ∧ m'.numParts = m.numParts ∧ Sated w m' := by
  induction count with
  | zero =>
    intro i s s' m found _ close inside ran
    cases ran
    refine ⟨.refl, m, found, rfl, fun accepting => .inr ?_⟩
    have := close accepting
    omega
  | succ count ih =>
    intro i s s' m found behind close inside ran
    rw [sendFrom_succ found] at ran
    split at ran
    · rename_i room
      split at ran
      · rename_i refused
        have move : Move w _ ⟨s, taken, none⟩ _ :=
          .nextRefused found (by omega : i < m.numParts) room behind refused
        have found' : (refusedState s msg m i).heap msg = some m := found
        have rest := ih found' (by omega) (fun accepting => absurd refused (accepting _)) (by omega) ran
        exact ⟨.cons rfl move rest.1, rest.2⟩
      · rename_i accepted
        have move : Move w _ ⟨s, taken, none⟩ _ := .nextSent found (by omega) room behind accepted
        have rest := ih sentState_heap (Nat.lt_succ_self i) (fun _ => Nat.le_refl (i + 1))
          (by change i + 1 + count = m.numParts; omega) ran
        exact ⟨.cons rfl move rest.1, rest.2⟩
    · rename_i full
      cases ran
      exact ⟨.refl, m, found, rfl, fun _ => .inl (Nat.le_of_not_lt full)⟩

theorem sendFrom_first (message : List UInt8) {msg count : Nat} :
    ∀ {i : Nat} {s s' : State} {m : MsgOutbound}, s.heap msg = some m → m.lastSent ≤ i →
      ((∀ n, w.answer n ≠ 0) → i ≤ m.lastSent + 1) → (∀ k, i ≤ k → Blank m k) →
      i + count = m.numParts → sendFrom w msg count i s = .ok s' →
      Chain w (· = .first) ⟨s, none, some (msg, message)⟩ ⟨s', none, some (msg, message)⟩ ∧
        ∃ m', s'.heap msg = some m' ∧ m'.friendNumber = m.friendNumber ∧ Sated w m' := by
  induction count with
  | zero =>
    intro i s s' m found _ close _ inside ran
    cases ran
    refine ⟨.refl, m, found, rfl, fun accepting => .inr ?_⟩
    have := close accepting
    omega
  | succ count ih =>
    intro i s s' m found behind close blank inside ran
    rw [sendFrom_succ found] at ran
    split at ran
    · rename_i room
      split at ran
      · rename_i refused
        have move : Move w _ ⟨s, none, some (msg, message)⟩ _ :=
          .firstRefused found (by omega : i < m.numParts) room (blank i (Nat.le_refl i)) refused
        have found' : (refusedState s msg m i).heap msg = some m := found
        have rest := ih found' (by omega) (fun accepting => absurd refused (accepting _))
          (fun k le => blank k (by omega)) (by omega) ran
        exact ⟨.cons rfl move rest.1, rest.2⟩
      · rename_i accepted
        have move : Move w _ ⟨s, none, some (msg, message)⟩ _ :=
          .firstSent found (by omega) room (blank i (Nat.le_refl i)) behind accepted
        have untouched : ∀ k, i + 1 ≤ k →
            Blank { partSent m i (w.answer s.base.length) with lastSent := i } k := by
          intro k le
          have same : part (partSent m i (w.answer s.base.length)) k = part m k := by
            simp [part, partSent, List.getD_eq_getElem?_getD, show i ≠ k by omega]
          change Blank (partSent m i (w.answer s.base.length)) k
          rw [Blank, same]
          exact blank k (by omega)
        have rest := ih sentState_heap (Nat.le_succ i) (fun _ => Nat.le_refl (i + 1)) untouched
          (by change i + 1 + count = m.numParts; omega) ran
        exact ⟨.cons rfl move rest.1, rest.2⟩
    · rename_i full
      cases ran
      exact ⟨.refl, m, found, rfl, fun _ => .inl (Nat.le_of_not_lt full)⟩

theorem sendFailed_chain (taken : Option Nat) {msg count : Nat} :
    ∀ {i : Nat} {s s' : State} {m : MsgOutbound}, s.heap msg = some m → i + count ≤ m.numParts →
      sendFailed w msg count i s = .ok s' →
      Chain w (· = .failed msg) ⟨s, taken, none⟩ ⟨s', taken, none⟩ := by
  induction count with
  | zero =>
    intro i s s' m _ _ ran
    cases ran
    exact .refl
  | succ count ih =>
    intro i s s' m found inside ran
    rw [sendFailed, msgAt_ok.mpr found] at ran
    simp only [bind, Except.bind] at ran
    split at ran
    · rename_i room
      split at ran
      · rename_i blank
        rw [msgSendPart_eq found] at ran
        by_cases refused : w.answer s.base.length = 0
        · simp only [refused, ↓reduceIte] at ran
          have move : Move w _ ⟨s, taken, none⟩ _ :=
            .failedRefused found (by omega : i < m.numParts) room.1 blank refused
          have found' : (refusedState s msg m i).heap msg = some m := found
          exact .cons rfl move (ih found' (by omega) ran)
        · simp only [refused, ↓reduceIte] at ran
          have move : Move w _ ⟨s, taken, none⟩ _ :=
            .failedSent found (by omega) room.1 blank refused
          exact .cons rfl move (ih sentState_heap (by change i + 1 + count ≤ m.numParts; omega) ran)
      · exact ih found (by omega) ran
    · cases ran
      exact .refl

/-- `msgSendNextParts` goes on from `lastSent` and then sends what failed. -/
theorem msgSendNextParts_chain (taken : Option Nat) {s s' : State} {msg : Nat}
    (ran : msgSendNextParts w s msg = .ok s') :
    ∃ m s₁, s.heap msg = some m ∧
      sendFrom w msg (m.numParts - (m.lastSent + 1)) (m.lastSent + 1) s = .ok s₁ ∧
      Chain w (· = .next msg) ⟨s, taken, none⟩ ⟨s₁, taken, none⟩ ∧
      (∃ m, s₁.heap msg = some m ∧ Sated w m) ∧
      Chain w (· = .failed msg) ⟨s₁, taken, none⟩ ⟨s', taken, none⟩ := by
  rw [msgSendNextParts, bind_ok] at ran
  obtain ⟨m, found, ran⟩ := ran
  obtain ⟨s₁, went, ran⟩ := bind_ok.mp ran
  have found := msgAt_ok.mp found
  by_cases left : m.lastSent + 1 ≤ m.numParts
  · obtain ⟨chain, m₁, found₁, same, sated⟩ := sendFrom_next taken found
      (Nat.lt_succ_self m.lastSent) (fun _ => Nat.le_refl _) (by omega) went
    exact ⟨m, s₁, found, went, chain, ⟨m₁, found₁, sated⟩,
      sendFailed_chain taken found₁ (by omega) ran⟩
  · have nothing : m.numParts - (m.lastSent + 1) = 0 := by omega
    have stayed := went
    rw [nothing] at stayed
    cases stayed
    exact ⟨m, s, found, went, .refl, ⟨m, found, fun _ => .inr (by omega)⟩,
      sendFailed_chain taken found (by omega) ran⟩

/-- One round of an expiry pass at a record that has expired. -/
theorem resendFrom_late {now fuel i : Nat} {s : State} {m : MsgOutbound}
    (inside : i < s.receipts.hi) (late : expired w now (s.receipts.receipts i) = true)
    (found : s.heap (s.receipts.receipts i).msg = some m) :
    resendFrom w now (fuel + 1) i s =
      if w.answer s.base.length = 0 then resendFrom w now fuel (i + 1)
        (refusedState (lostState s i (s.receipts.receipts i).msg m) (s.receipts.receipts i).msg
          (partLost m) ((s.receipts.receipts i).partNo - 1))
      else resendFrom w now fuel (i + 1)
        (sentState w (lostState s i (s.receipts.receipts i).msg m) (s.receipts.receipts i).msg
          (partLost m) ((s.receipts.receipts i).partNo - 1)
          (partSent (partLost m) ((s.receipts.receipts i).partNo - 1) (w.answer s.base.length))) := by
  have here : State.msgAt { s with
      receipts := { s.receipts.clear i with num := s.receipts.num - 1 } }
      (s.receipts.receipts i).msg = .ok m := msgAt_ok.mpr found
  have after : (lostState s i (s.receipts.receipts i).msg m).heap (s.receipts.receipts i).msg =
      some (partLost m) := Function.update_self ..
  have sent := msgSendPart_eq (w := w) (i := (s.receipts.receipts i).partNo - 1) after
  simp only [resendFrom, if_pos inside, late, ↓reduceIte]
  rw [here]
  change (msgSendPart w (lostState s i (s.receipts.receipts i).msg m)
    (s.receipts.receipts i).msg ((s.receipts.receipts i).partNo - 1) >>= _) = _
  rw [sent]
  change _ = if w.answer (lostState s i (s.receipts.receipts i).msg m).base.length = 0 then _ else _
  by_cases refused : w.answer (lostState s i (s.receipts.receipts i).msg m).base.length = 0
  · simp only [refused, ↓reduceIte]
    rfl
  · simp only [refused, ↓reduceIte]
    rfl

theorem held_of_expired {now : Nat} {r : ReceiptRecord} (late : expired w now r = true) :
    r.receipt ≠ 0 := by
  simp only [expired, Bool.and_eq_true, decide_eq_true_eq, ne_eq] at late
  simpa using late.1

theorem resendFrom_chain {now fuel : Nat} : ∀ {i : Nat} {s s' : State},
    resendFrom w now fuel i s = .ok s' →
    Chain w (· = .expiry now) ⟨s, none, none⟩ ⟨s', none, none⟩ := by
  induction fuel with
  | zero =>
    intro i s s' ran
    cases ran
  | succ fuel ih =>
    intro i s s' ran
    by_cases inside : i < s.receipts.hi
    · by_cases late : expired w now (s.receipts.receipts i) = true
      · obtain ⟨m, found⟩ : ∃ m, s.heap (s.receipts.receipts i).msg = some m := by
          simp only [resendFrom, if_pos inside, late, ↓reduceIte] at ran
          obtain ⟨m, found, _⟩ := bind_ok.mp ran
          exact ⟨m, msgAt_ok.mp found⟩
        have held : s.receipts.key i ≠ 0 := held_of_expired late
        rw [resendFrom_late inside late found] at ran
        split at ran
        · rename_i refused
          exact .cons rfl (.lost held late found refused) (ih ran)
        · rename_i accepted
          exact .cons rfl (.resent held late found accepted) (ih ran)
      · simp only [resendFrom, if_pos inside, if_neg late] at ran
        exact ih ran
    · simp only [resendFrom, if_neg inside] at ran
      cases ran
      exact .refl

theorem blank_of_unsent {id : Nat} {m : MsgOutbound} (unsent : Unsent id m) (k : Nat) :
    Blank m k := by
  unfold Blank part
  rw [List.getD_eq_getElem?_getD]
  cases at_k : m.fragments[k]? with
  | none => exact ⟨rfl, rfl⟩
  | some f => exact unsent.blank f (List.mem_of_getElem? at_k)

/-- Sending, up to the message's entry into the list. -/
def Sending (l : Label) : Prop := l = .outside ∨ l = .form ∨ l = .first

/-- How a long send fares: its first window goes out, and then the message is
in the list and in the store, or no part of it was taken and it is gone. -/
inductive LongSend (w : World) (friendNumber : Nat) (type : Int) (message : List UInt8)
    (s s' : State) : Prop where
  | opened {s₁ : State} {m m₁ : MsgOutbound} {receipt : Nat} {db : Db} :
      splitMessage s.markerMaxSizeEver message w.params.maxMessageLength
        (max (w.clock s.ticks) (s.lastMsgId + 1)) = .ok m →
      sendFrom w s.fresh m.numParts 0 (begunState w s friendNumber m) = .ok s₁ →
      Chain w (· = .first) ⟨begunState w s friendNumber m, none, some (s.fresh, message)⟩
        ⟨s₁, none, some (s.fresh, message)⟩ →
      s₁.heap s.fresh = some m₁ → 0 < m₁.numTransit → Sated w m₁ →
      avoidPending w.params s₁.pending (s₁.msgsOutbound.length + 1)
        (nextReceiptNo w.params s₁.lastReceipt) = .ok receipt →
      dbInsertOutboundMessage w.limit s₁.db m₁.friendNumber type m₁.id m₁.id m₁.numParts message
        receipt = .ok db →
      s' = openedState s₁ s.fresh m₁ type message receipt db →
      LongSend w friendNumber type message s s'
  | dropped {s₁ : State} {m m₁ : MsgOutbound} :
      splitMessage s.markerMaxSizeEver message w.params.maxMessageLength
        (max (w.clock s.ticks) (s.lastMsgId + 1)) = .ok m →
      sendFrom w s.fresh m.numParts 0 (begunState w s friendNumber m) = .ok s₁ →
      Chain w (· = .first) ⟨begunState w s friendNumber m, none, some (s.fresh, message)⟩
        ⟨s₁, none, some (s.fresh, message)⟩ →
      s₁.heap s.fresh = some m₁ → m₁.numTransit = 0 → s' = msgOutboundDelete s₁ s.fresh →
      LongSend w friendNumber type message s s'

theorem friendSendMessageLong_sends {s s' : State} {friendNumber receipt : Nat} {type : Int}
    {message : List UInt8} (ran : friendSendMessageLong w s friendNumber type message = .ok (s', receipt)) :
    LongSend w friendNumber type message s s' := by
  obtain ⟨m, split, ran⟩ := bind_ok.mp ran
  obtain ⟨s₁, went, ran⟩ := bind_ok.mp ran
  obtain ⟨m₁, found₁, ran⟩ := bind_ok.mp ran
  have unsent := unsent_of_split split
  have found : (begunState w s friendNumber m).heap s.fresh = some { m with friendNumber } := by
    simp [begunState]
  have blank : ∀ k, 0 ≤ k → Blank { m with friendNumber } k := fun k _ => blank_of_unsent unsent k
  have behind : ({ m with friendNumber } : MsgOutbound).lastSent ≤ 0 := by
    rw [← unsent.lastSent]
  obtain ⟨window, m₂, found₂, friend, sated⟩ := sendFrom_first message found behind
    (fun _ => Nat.zero_le _) blank (Nat.zero_add _) went
  have found₁ : s₁.heap s.fresh = some m₁ := msgAt_ok.mp found₁
  rw [found₁] at found₂
  cases found₂
  split at ran
  · rename_i taken
    obtain ⟨⟨r, s₂⟩, numbered, ran⟩ := bind_ok.mp ran
    obtain ⟨s₃, accepted, ran⟩ := bind_ok.mp ran
    cases ran
    obtain ⟨r', free, numbered⟩ := bind_ok.mp numbered
    cases numbered
    obtain ⟨db, stored, accepted⟩ := bind_ok.mp accepted
    cases accepted
    rw [← show m₁.friendNumber = friendNumber from friend] at stored
    refine .opened split went window found₁ taken sated free stored ?_
    rw [openedState, friend]
  · cases ran
    exact .dropped split went window found₁ (by omega) rfl

theorem LongSend.chain {s s' : State} {friendNumber : Nat} {type : Int} {message : List UInt8}
    (long : w.params.maxMessageLength < message.length)
    (sends : LongSend w friendNumber type message s s') :
    Chain w Sending ⟨s, none, none⟩ ⟨s', none, none⟩ := by
  have begun : ∀ {s₁ : State} {m : MsgOutbound}, splitMessage s.markerMaxSizeEver message
      w.params.maxMessageLength (max (w.clock s.ticks) (s.lastMsgId + 1)) = .ok m →
      Chain w (· = .first) ⟨begunState w s friendNumber m, none, some (s.fresh, message)⟩
        ⟨s₁, none, some (s.fresh, message)⟩ →
      Chain w Sending ⟨s, none, none⟩ ⟨s₁, none, some (s.fresh, message)⟩ := fun split window =>
    .cons (.inr (.inl rfl)) (.begun long split) (window.mono fun _ same => .inr (.inr same))
  cases sends with
  | opened split _ window found taken sated free stored same =>
    subst same
    exact (begun split window).trans (.single (.inr (.inl rfl)) (.opened found taken sated free stored))
  | dropped split _ window found none same =>
    subst same
    exact (begun split window).trans (.single (.inr (.inl rfl)) (.dropped found none))

/-- A call of `friend_send_message` does nothing here, one call of the base library, or a long send. -/
theorem send_cases {s s' : State} {friendNumber : Nat} {type : Int} {message : List UInt8}
    {beyond : Memory} (ran : step w (.send friendNumber type message beyond) s = .ok s') :
    s' = s ∨ (∃ call, call.part = none ∧ s' = { s with base := s.base ++ [call] }) ∨
      w.params.maxMessageLength < message.length ∧ LongSend w friendNumber type message s s' := by
  obtain ⟨⟨s₁, receipt⟩, ran, same⟩ := bind_ok.mp ran
  cases same
  unfold friendSendMessage at ran
  split at ran
  · cases ran
    exact .inl rfl
  · split at ran
    · cases ran
      exact .inr (.inl ⟨_, rfl, rfl⟩)
    · rename_i long
      exact .inr (.inr ⟨by omega, friendSendMessageLong_sends ran⟩)

theorem send_chain {s s' : State} {friendNumber : Nat} {type : Int} {message : List UInt8}
    {beyond : Memory} (ran : step w (.send friendNumber type message beyond) s = .ok s') :
    Chain w Sending ⟨s, none, none⟩ ⟨s', none, none⟩ := by
  rcases send_cases ran with rfl | ⟨call, none, rfl⟩ | ⟨long, sends⟩
  · exact .refl
  · exact .single (.inl rfl) (.short none)
  · exact sends.chain long

/-- What serving a message does: nothing if its friend is offline, else the
rest of its window, then what failed before. -/
inductive Serves (w : World) (taken : Option Nat) (msg : Nat) (s s' : State) : Prop where
  | offline : w.online s.polls = false → s' = { s with polls := s.polls + 1 } →
      Serves w taken msg s s'
  | online {s₁ : State} : w.online s.polls = true →
      Chain w (· = .next msg) ⟨{ s with polls := s.polls + 1 }, taken, none⟩ ⟨s₁, taken, none⟩ →
      (∃ m, s₁.heap msg = some m ∧ Sated w m) →
      Chain w (· = .failed msg) ⟨s₁, taken, none⟩ ⟨s', taken, none⟩ →
      Serves w taken msg s s'

theorem serve_serves (taken : Option Nat) {s s' : State} {msg : Nat}
    (ran : serve w s msg = .ok s') : Serves w taken msg s s' := by
  simp only [serve, isFriendOnline] at ran
  cases online : w.online s.polls with
  | false =>
    simp only [online, Bool.false_eq_true, ↓reduceIte] at ran
    cases ran
    exact .offline online rfl
  | true =>
    simp only [online, ↓reduceIte] at ran
    obtain ⟨_, s₁, _, _, next, sated, failed⟩ := msgSendNextParts_chain taken ran
    exact .online online next sated failed

/-- What a receipt that is found does: the part in slot `j` is confirmed, then
its message is completed or served, and the slot is cleared. -/
inductive Processed (w : World) (messageId : Nat) (s s' : State) : Prop where
  | completed {j : Nat} {m m' : MsgOutbound} {db : Db} :
      s.receipts.findReceipt messageId = some j → s.receipts.key j = messageId →
      s.heap (s.receipts.receipts j).msg = some m →
      dbOutboundPartConfirmed s.db m.friendNumber m.id (s.receipts.receipts j).partNo
        (w.clock s.ticks) = .ok db →
      m' = partConfirmed m (s.receipts.receipts j).partNo → m'.numParts ≤ m'.numConfirmed →
      s' = clearedState (completedState (confirmedState s j m db) (s.receipts.receipts j).msg m') j →
      Processed w messageId s s'
  | continued {j : Nat} {m m' : MsgOutbound} {db : Db} {s₁ : State} :
      s.receipts.findReceipt messageId = some j → s.receipts.key j = messageId →
      s.heap (s.receipts.receipts j).msg = some m →
      dbOutboundPartConfirmed s.db m.friendNumber m.id (s.receipts.receipts j).partNo
        (w.clock s.ticks) = .ok db →
      m' = partConfirmed m (s.receipts.receipts j).partNo → m'.numConfirmed < m'.numParts →
      Serves w (some j) (s.receipts.receipts j).msg (confirmedState s j m db) s₁ →
      s' = clearedState s₁ j → Processed w messageId s s'

/-- A receipt whose record is found. -/
theorem tryProcessReceipt_found {s : State} {messageId j : Nat}
    (lookup : s.receipts.findReceipt messageId = some j) (held : s.receipts.key j = messageId) :
    tryProcessReceipt w s messageId = (do
      let m ← s.msgAt (s.receipts.receipts j).msg
      let db ← dbOutboundPartConfirmed s.db m.friendNumber m.id (s.receipts.receipts j).partNo
        (w.clock s.ticks)
      let s₁ ← proceed w (confirmedState s j m db) (s.receipts.receipts j).msg
        (partConfirmed m (s.receipts.receipts j).partNo)
      pure (clearedState s₁ j, true)) := by
  subst held
  have same : ¬ (s.receipts.receipts j).receipt ≠ s.receipts.key j := not_not.mpr rfl
  unfold tryProcessReceipt
  dsimp only
  rw [lookup]
  dsimp only
  rw [if_neg same]
  rfl

theorem tryProcessReceipt_missing {s : State} {messageId : Nat} (missing : NotFound s.receipts messageId) :
    tryProcessReceipt w s messageId = .ok (s, decide (InRange w.params messageId)) := by
  unfold tryProcessReceipt
  dsimp only
  cases lookup : s.receipts.findReceipt messageId with
  | none => rfl
  | some j => exact if_pos (missing j lookup)

theorem tryProcessReceipt_cases {s s' : State} {messageId : Nat} {processed : Bool}
    (ran : tryProcessReceipt w s messageId = .ok (s', processed)) :
    (NotFound s.receipts messageId ∧ s' = s ∧ processed = decide (InRange w.params messageId)) ∨
    (processed = true ∧ Processed w messageId s s') := by
  by_cases known : ∃ j, s.receipts.findReceipt messageId = some j ∧ s.receipts.key j = messageId
  · obtain ⟨j, lookup, held⟩ := known
    rw [tryProcessReceipt_found lookup held] at ran
    obtain ⟨m, found, ran⟩ := bind_ok.mp ran
    obtain ⟨db, stored, ran⟩ := bind_ok.mp ran
    obtain ⟨s₁, went, ran⟩ := bind_ok.mp ran
    cases ran
    have found := msgAt_ok.mp found
    refine .inr ⟨rfl, ?_⟩
    unfold proceed at went
    split at went
    · rename_i more
      exact .continued lookup held found stored rfl more (serve_serves (some j) went) rfl
    · rename_i all
      obtain ⟨m', found', went⟩ := bind_ok.mp went
      have here : (confirmedState s j m db).heap (s.receipts.receipts j).msg =
          some (partConfirmed m (s.receipts.receipts j).partNo) := Function.update_self ..
      have found' := msgAt_ok.mp found'
      rw [here] at found'
      cases found'
      cases went
      exact .completed lookup held found stored rfl (Nat.le_of_not_lt all) rfl
  · have missing : NotFound s.receipts messageId := fun j lookup held => known ⟨j, lookup, held⟩
    rw [tryProcessReceipt_missing missing] at ran
    cases ran
    exact .inl ⟨missing, rfl, rfl⟩

/-- A receipt is dropped as a duplicate, passed on, or processed. -/
theorem receipt_cases {s s' : State} {friendNumber messageId : Nat}
    (ran : friendReadReceiptCb w s friendNumber messageId = .ok s') :
    (NotFound s.receipts messageId ∧ InRange w.params messageId ∧ s' = s) ∨
    (NotFound s.receipts messageId ∧ ¬ InRange w.params messageId ∧
      s' = { s with events := .passed friendNumber messageId :: s.events }) ∨
    Processed w messageId s s' := by
  obtain ⟨⟨s₁, processed⟩, ran, rest⟩ := bind_ok.mp ran
  rcases tryProcessReceipt_cases ran with ⟨missing, rfl, rfl⟩ | ⟨rfl, found⟩
  · by_cases inRange : InRange w.params messageId
    · simp only [inRange, decide_true, ↓reduceIte] at rest
      cases rest
      exact .inl ⟨missing, inRange, rfl⟩
    · simp only [inRange, decide_false, Bool.false_eq_true, ↓reduceIte] at rest
      cases rest
      exact .inr (.inl ⟨missing, inRange, rfl⟩)
  · cases rest
    exact .inr (.inr found)

/-- The messages of a list served one after another. -/
inductive Served (w : World) : List Nat → State → State → Prop where
  | nil {s : State} : Served w [] s s
  | cons {s s₁ s' : State} {msg : Nat} {rest : List Nat} :
      Serves w none msg s s₁ → Served w rest s₁ s' → Served w (msg :: rest) s s'

theorem serveAll_served {msgs : List Nat} : ∀ {s s' : State}, msgs.foldlM (serve w) s = .ok s' →
    Served w msgs s s' := by
  induction msgs with
  | nil =>
    intro s s' ran
    cases ran
    exact .nil
  | cons msg rest ih =>
    intro s s' ran
    rw [List.foldlM_cons] at ran
    obtain ⟨s₁, went, ran⟩ := bind_ok.mp ran
    exact .cons (serve_serves none went) (ih ran)

/-- What an expiry pass does: nothing if no record is counted, else it handles
what has expired by the time it read. -/
def Expires (w : World) (s s' : State) : Prop :=
  s' = s ∨ Chain w (· = .expiry (w.clock s.ticks)) ⟨{ s with ticks := s.ticks + 1 }, none, none⟩
    ⟨s', none, none⟩

theorem resendExpiredReceipts_expires {s s' : State} (ran : resendExpiredReceipts w s = .ok s') :
    Expires w s s' := by
  unfold resendExpiredReceipts at ran
  split at ran
  · cases ran
    exact .inl rfl
  · exact .inr (resendFrom_chain ran)

/-- A periodic pass is an expiry pass, then the linked messages are served. -/
theorem periodic_cases {s s' : State} (ran : doPeriodic w s = .ok s') :
    ∃ s₁, Expires w s s₁ ∧ Served w s₁.msgsOutbound s₁ s' := by
  obtain ⟨s₁, resent, ran⟩ := bind_ok.mp ran
  exact ⟨s₁, resendExpiredReceipts_expires resent, serveAll_served ran⟩

/-! ## Every call is a chain -/

/-- A call the base library or the client can make: no message has the number zero. -/
def Proper : Op → Prop
  | .receipt _ messageId => messageId ≠ 0
  | _ => True

instance : DecidablePred Proper := fun op =>
  match op with
  | .receipt _ messageId => inferInstanceAs (Decidable (messageId ≠ 0))
  | .send .. => .isTrue trivial
  | .periodic => .isTrue trivial

variable {s s' : State}

theorem Serves.chain {taken : Option Nat} {msg : Nat} (serves : Serves w taken msg s s') :
    Chain w (fun l => l = .outside ∨ l = .next msg ∨ l = .failed msg) ⟨s, taken, none⟩
      ⟨s', taken, none⟩ := by
  have poll : Move w .outside ⟨s, taken, none⟩ ⟨{ s with polls := s.polls + 1 }, taken, none⟩ :=
    .idle (Nat.le_refl s.ticks)
  cases serves with
  | offline _ same =>
    subst same
    exact .single (.inl rfl) poll
  | online _ next _ failed =>
    exact .cons (.inl rfl) poll ((next.mono fun _ same => .inr (.inl same)).trans
      (failed.mono fun _ same => .inr (.inr same)))

theorem Serves.polls {taken : Option Nat} {msg : Nat} (serves : Serves w taken msg s s') :
    s'.polls = s.polls + 1 := by
  have kept : ∀ {admitted : Label → Prop} {s₁ s₂ : State},
      (∀ label, admitted label → label = .next msg ∨ label = .failed msg) →
      Chain w admitted ⟨s₁, taken, none⟩ ⟨s₂, taken, none⟩ → s₂.polls = s₁.polls := by
    intro admitted s₁ s₂ only chain
    refine chain.invariant (I := fun v => v.s.polls = s₁.polls) ?_ rfl
    intro label v v' ok move before
    rcases only label ok with rfl | rfl <;> cases move <;> exact before
  cases serves with
  | offline _ same => rw [same]
  | online _ next _ failed =>
    rw [kept (fun _ => .inr) failed, kept (fun _ => .inl) next]

/-- Sending more of a message tells the client nothing. -/
theorem Serves.events {taken : Option Nat} {msg : Nat} (serves : Serves w taken msg s s') :
    s'.events = s.events := by
  refine serves.chain.invariant (I := fun v => v.s.events = s.events) ?_ rfl
  intro label v v' admitted move before
  rcases admitted with rfl | rfl | rfl <;> cases move <;> exact before

/-- A processed receipt confirms the part of the record it found. -/
theorem Processed.events {messageId : Nat} (processed : Processed w messageId s s') :
    ∃ j m, s.receipts.findReceipt messageId = some j ∧ s.receipts.key j = messageId ∧
      s.heap (s.receipts.receipts j).msg = some m ∧
      ∃ done, s'.events = (done ++ [.confirmed (s.receipts.receipts j).msg
          (s.receipts.receipts j).partNo messageId]) ++ s.events ∧
        ∀ e ∈ done, e = .completed (s.receipts.receipts j).msg m.friendNumber m.receipt := by
  cases processed with
  | @completed j m m' db lookup held found stored same all result =>
    subst held same result
    refine ⟨j, m, lookup, rfl, found, [_], rfl, fun e member => ?_⟩
    rw [List.mem_singleton.mp member]
    rfl
  | @continued j m m' db s₁ lookup held found stored same more serves result =>
    subst held result
    exact ⟨j, m, lookup, rfl, found, [], serves.events, by simp⟩

/-- The moves of serving, whichever messages are served. -/
def Serving (label : Label) : Prop :=
  label = .outside ∨ (∃ msg, label = .next msg) ∨ ∃ msg, label = .failed msg

/-- The move is none of an expiry pass. -/
def NoExpiry (label : Label) : Prop := ∀ now, label ≠ .expiry now

/-- The move is none of a receipt. -/
def NoReceipt (label : Label) : Prop := ∀ friendNumber messageId, label ≠ .receipt friendNumber messageId

theorem Serving.others {label : Label} (serving : Serving label) :
    label ≠ .form ∧ NoExpiry label ∧ NoReceipt label := by
  rcases serving with rfl | ⟨_, rfl⟩ | ⟨_, rfl⟩ <;> exact ⟨nofun, nofun, nofun⟩

theorem Serves.chain_serving {taken : Option Nat} {msg : Nat} (serves : Serves w taken msg s s') :
    Chain w Serving ⟨s, taken, none⟩ ⟨s', taken, none⟩ :=
  serves.chain.mono fun _ admitted =>
    admitted.imp_right (Or.imp (fun same => ⟨msg, same⟩) fun same => ⟨msg, same⟩)

theorem Processed.chain (friendNumber : Nat) {messageId : Nat} (proper : messageId ≠ 0)
    (processed : Processed w messageId s s') :
    Chain w (fun l => Serving l ∨ l = .receipt friendNumber messageId) ⟨s, none, none⟩
      ⟨s', none, none⟩ := by
  cases processed with
  | @completed j m _ db lookup held found stored same all result =>
    subst same result
    have confirm : Move w (.receipt friendNumber messageId) ⟨s, none, none⟩ _ :=
      .confirmed proper lookup held found stored
    have complete : Move w (.receipt friendNumber messageId) ⟨confirmedState s j m db, some j, none⟩ _ :=
      .completed (Function.update_self ..) all
    have clear : Move w (.receipt friendNumber messageId)
        ⟨completedState (confirmedState s j m db) (s.receipts.receipts j).msg
          (partConfirmed m (s.receipts.receipts j).partNo), some j, none⟩ _ := .cleared
    exact .cons (.inr rfl) confirm (.cons (.inr rfl) complete (.single (.inr rfl) clear))
  | @continued j m _ db s₁ lookup held found stored same more serves result =>
    subst same result
    have confirm : Move w (.receipt friendNumber messageId) ⟨s, none, none⟩ _ :=
      .confirmed proper lookup held found stored
    have clear : Move w (.receipt friendNumber messageId) ⟨s₁, some j, none⟩ _ := .cleared
    refine .cons (.inr rfl) confirm (.trans ?_ (.single (.inr rfl) clear))
    exact serves.chain_serving.mono fun _ serving => .inl serving

theorem Served.chain {msgs : List Nat} (served : Served w msgs s s') :
    Chain w Serving ⟨s, none, none⟩ ⟨s', none, none⟩ := by
  induction served with
  | nil => exact .refl
  | cons serves _ ih => exact serves.chain_serving.trans ih

theorem Served.events {msgs : List Nat} (served : Served w msgs s s') : s'.events = s.events := by
  induction served with
  | nil => rfl
  | cons serves _ ih => rw [ih, serves.events]

theorem Expires.chain (expires : Expires w s s') :
    Chain w (fun l => l = .outside ∨ ∃ now, l = .expiry now) ⟨s, none, none⟩ ⟨s', none, none⟩ := by
  rcases expires with rfl | chain
  · exact .refl
  · have tick : Move w .outside ⟨s, none, none⟩ ⟨{ s with ticks := s.ticks + 1 }, none, none⟩ :=
      .idle (Nat.le_succ s.ticks)
    exact .cons (.inl rfl) tick (chain.mono fun _ same => .inr ⟨_, same⟩)

/-- An expiry pass leaves the list alone, asks nobody and tells the client nothing. -/
theorem Expires.frame (expires : Expires w s s') :
    s'.msgsOutbound = s.msgsOutbound ∧ s'.polls = s.polls ∧ s'.events = s.events := by
  rcases expires with rfl | chain
  · exact ⟨rfl, rfl, rfl⟩
  · refine chain.invariant (I := fun v => v.s.msgsOutbound = s.msgsOutbound ∧ v.s.polls = s.polls ∧
      v.s.events = s.events) ?_ ⟨rfl, rfl, rfl⟩
    intro label v v' same move before
    subst same
    cases move <;> exact before

theorem send_chain_noReceipt {friendNumber : Nat} {type : Int} {message : List UInt8} {beyond : Memory}
    (ran : step w (.send friendNumber type message beyond) s = .ok s') :
    Chain w NoReceipt ⟨s, none, none⟩ ⟨s', none, none⟩ := by
  refine (send_chain ran).mono fun label sending f n same => ?_
  subst same
  rcases sending with same | same | same <;> cases same

theorem periodic_chain (ran : doPeriodic w s = .ok s') :
    Chain w (fun l => Serving l ∨ ∃ now, l = .expiry now) ⟨s, none, none⟩ ⟨s', none, none⟩ := by
  obtain ⟨s₁, expires, served⟩ := periodic_cases ran
  refine .trans (expires.chain.mono fun _ admitted => ?_) (served.chain.mono fun _ serving => .inl serving)
  exact admitted.imp_left fun same => .inl same

theorem periodic_chain_noReceipt (ran : doPeriodic w s = .ok s') :
    Chain w NoReceipt ⟨s, none, none⟩ ⟨s', none, none⟩ := by
  refine (periodic_chain ran).mono fun label admitted => ?_
  rcases admitted with serving | ⟨_, rfl⟩
  · exact serving.others.2.2
  · exact nofun

/-- A receipt and a periodic pass enter no message. -/
theorem later_chain {op : Op} (proper : Proper op) (later : ∀ f t bytes m, op ≠ .send f t bytes m)
    (ran : step w op s = .ok s') : Chain w (· ≠ .form) ⟨s, none, none⟩ ⟨s', none, none⟩ := by
  cases op with
  | send => exact absurd rfl (later _ _ _ _)
  | receipt friendNumber messageId =>
    rcases receipt_cases ran with ⟨_, _, rfl⟩ | ⟨missing, outside, rfl⟩ | processed
    · exact .refl
    · exact .single Label.noConfusion (.passed missing outside)
    · refine (processed.chain friendNumber proper).mono fun label admitted => ?_
      rcases admitted with serving | rfl
      · exact serving.others.1
      · exact nofun
  | periodic =>
    refine (periodic_chain ran).mono fun label admitted => ?_
    rcases admitted with serving | ⟨_, rfl⟩
    · exact serving.others.1
    · exact nofun

theorem step_chain {op : Op} (proper : Proper op) (ran : step w op s = .ok s') :
    Chain w (fun _ => True) ⟨s, none, none⟩ ⟨s', none, none⟩ := by
  cases op with
  | send friendNumber type message beyond => exact (send_chain ran).mono fun _ _ => trivial
  | receipt friendNumber messageId =>
    exact (later_chain proper nofun ran).mono fun _ _ => trivial
  | periodic => exact (later_chain proper nofun ran).mono fun _ _ => trivial

end Defragmenter.Moves
