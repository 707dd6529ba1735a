import Defragmenter.ClientView
import Defragmenter.ExpiryPass
import Defragmenter.FragmentBytes
import Defragmenter.FullWindow
import Defragmenter.ReceiptNumbers

/-! A long send. Its first window goes out and is recorded before the message
is linked, numbered and stored, and only the count of what is under way tells
afterwards whether there is a message at all. Each outcome is a whole one, but
what the store refuses is noticed last: then the process is aborted with the
window sent. -/
namespace Defragmenter.LongSends
open Marker Tiling Database InboundStore OutboundStore Split Receipts Sender Moves Provenance Tracking Restart
open FragmentBytes FullWindow ExpiryPass Runs

/-- None of the calls between the two states was answered with an id. -/
def NoneAccepted (w : World) (s s' : State) : Prop :=
  ∀ n, s.base.length ≤ n → n < s'.base.length → w.answer n = 0

/-- Slot `k` holds a live record of part `p` of the message. -/
def LiveFor (s : State) (k msg p : Nat) : Prop :=
  s.receipts.key k ≠ 0 ∧ (s.receipts.receipts k).msg = msg ∧ (s.receipts.receipts k).partNo = p

/-- What a send leaves that comes to nothing. -/
structure Untouched (s s' : State) : Prop where
  msgsOutbound : s'.msgsOutbound = s.msgsOutbound
  heap : s'.heap = s.heap
  receipts : s'.receipts = s.receipts
  db : s'.db = s.db
  lastReceipt : s'.lastReceipt = s.lastReceipt

/-- What a send leaves of the message `m`, at the next address, under this number. -/
structure Underway (w : World) (friendNumber : Nat) (type : Int) (message : List UInt8) (number : Nat)
    (m : MsgOutbound) (s s' : State) : Prop where
  inRange : InRange w.params number
  listed : s.fresh ∈ s'.msgsOutbound ∧ s'.heap s.fresh = some m ∧ m.receipt = number
  pending : ∃ p ∈ stmtSelectFragmentedOutboundPending s'.db, p.friendNumber = friendNumber ∧
    p.type = type ∧ p.id = m.id ∧ p.message = message ∧ p.numParts = m.numParts ∧ p.numConfirmed = 0 ∧
    p.confirmed = List.replicate m.numParts 0
  /-- The parts were attempted in turn. -/
  attempts : ∀ n, s.base.length ≤ n → n < s'.base.length →
    CallFor s' n s.fresh (n - s.base.length + 1)
  records : ∀ p, (∃ k, LiveFor s' k s.fresh p) ↔
    ∃ n, s.base.length ≤ n ∧ CallFor s' n s.fresh p ∧ w.answer n ≠ 0
  once : ∀ j k p, LiveFor s' j s.fresh p → LiveFor s' k s.fresh p → j = k
  answers : ∀ k n p, LiveFor s' k s.fresh p → s.base.length ≤ n → CallFor s' n s.fresh p →
    s'.receipts.key k = w.answer n
  others : ∀ k < s.receipts.hi, s'.receipts.receipts k = s.receipts.receipts k

/-- The two outcomes, told apart by the number that is returned. -/
structure AllOrNothing (w : World) (friendNumber : Nat) (type : Int) (message : List UInt8) (number : Nat)
    (s s' : State) : Prop where
  zero : number = 0 ↔ NoneAccepted w s s'
  nothing : NoneAccepted w s s' → Untouched s s'
  all : ¬ NoneAccepted w s s' → ∃ m, Underway w friendNumber type message number m s s'

variable {w : World} {v v' : View} {label : Label} {s s₁ s' t : State} {friendNumber msg i p k n number : Nat}
  {type : Int} {message : List UInt8} {m m₁ : MsgOutbound}

/-! ## What `initialize` has set -/

/-- Every later call keeps this. -/
structure Prepared (w : World) (s : State) : Prop where
  marker : s.markerMaxSizeEver = markerMaxSizeBytes (2 ^ 31 - 1) (2 ^ 31 - 1)
  last : InRange w.params s.lastReceipt

theorem lastReceipt_settled {ps : List PendingSent} : ∀ {s : State},
    (ps.foldl (fun s p => settle s p (loaded w p)) s).lastReceipt = s.lastReceipt := by
  induction ps with
  | nil =>
    intro s
    rfl
  | cons p ps ih =>
    intro s
    rw [List.foldl_cons, ih]
    cases loaded w p <;> rfl

theorem prepared_started (range : ClientView.ProperRange w.params) (begins : Begins w s) : Prepared w s := by
  obtain ⟨db, started⟩ := begins
  obtain ⟨s₁, settled, rfl⟩ := started_settled started
  have last : s₁.lastReceipt = w.params.receiptRangeLo := by
    rw [settled, lastReceipt_settled]
    rfl
  refine ⟨rfl, ?_⟩
  change InRange w.params s₁.lastReceipt
  rw [last]
  exact ⟨Nat.le_refl _, range.1⟩

theorem Prepared.move (prepared : Prepared w v.s) (range : ClientView.ProperRange w.params)
    (move : Move w label v v') : Prepared w v'.s := by
  cases move with
  | opened _ _ _ free =>
    exact ⟨prepared.marker,
      ClientView.avoidPending_inRange range (ClientView.nextReceiptNo_inRange range prepared.last) free⟩
  | _ => exact ⟨prepared.marker, prepared.last⟩

theorem prepared_of_run {ops : List Op} (range : ClientView.ProperRange w.params)
    (run : Run (step w) (fun _ op => Proper op) (Begins w) ops s) : Prepared w s := by
  refine run.invariant (I := Prepared w) (fun _ begins => prepared_started range begins) ?_
  intro s op s' prepared proper ran
  exact (step_chain proper ran).invariant (I := fun v => Prepared w v.s)
    (fun _ move before => before.move range move) prepared

/-! ## The first window -/

/-- The parts that the loop comes to are consecutive. -/
theorem comesTo_range {count : Nat} : ∀ {i calls transit : Nat},
    comesTo w count i calls transit = List.range' i (comesTo w count i calls transit).length := by
  induction count with
  | zero =>
    intro i calls transit
    rfl
  | succ count ih =>
    intro i calls transit
    rw [comesTo]
    split
    · rw [List.length_cons, List.range'_succ]
      exact congrArg (i :: ·) ih
    · rfl

/-- Where every part it comes to is refused, it comes to all of them. -/
theorem comesTo_all {count : Nat} : ∀ {i calls transit : Nat}, transit < w.params.fragmentsAtATime →
    (∀ k < (comesTo w count i calls transit).length, w.answer (calls + k) = 0) →
    (comesTo w count i calls transit).length = count := by
  induction count with
  | zero =>
    intro i calls transit _ _
    rfl
  | succ count ih =>
    intro i calls transit room refused
    rw [comesTo, if_pos room, List.length_cons] at refused ⊢
    have first : w.answer calls = 0 := refused 0 (Nat.succ_pos _)
    rw [if_pos first] at refused ⊢
    refine congrArg Nat.succ (ih room fun k inside => ?_)
    rw [Nat.add_assoc, Nat.add_comm 1 k]
    exact refused (k + 1) (Nat.succ_lt_succ inside)

theorem noneAccepted_snoc {call : BaseCall} (base : s'.base = t.base ++ [call])
    (grown : s.base.length ≤ t.base.length) :
    NoneAccepted w s s' ↔ NoneAccepted w s t ∧ w.answer t.base.length = 0 := by
  have longer : s'.base.length = t.base.length + 1 := by
    rw [base, List.length_append, List.length_singleton]
  constructor
  · intro none
    exact ⟨fun n new inside => none n new (by omega), none _ grown (by omega)⟩
  · rintro ⟨none, last⟩ n new inside
    rcases Nat.lt_succ_iff_lt_or_eq.mp (longer ▸ inside) with earlier | rfl
    · exact none n new earlier
    · exact last

/-- A first window that goes out from here: what it has sent is counted and
recorded, and nothing else has changed. -/
structure Opening (w : World) (s : State) (v : View) : Prop where
  forming : ∃ message, v.forming = some (s.fresh, message)
  calls : s.base.length ≤ v.s.base.length
  slots : s.receipts.hi ≤ v.s.receipts.hi
  before : ∀ k < s.receipts.hi, v.s.receipts.receipts k = s.receipts.receipts k
  accepted : ∀ n p, s.base.length ≤ n → CallFor v.s n s.fresh p → w.answer n ≠ 0 →
    ∃ k, LiveFor v.s k s.fresh p
  counted : ∃ m, v.s.heap s.fresh = some m ∧ (m.numTransit = 0 ↔ NoneAccepted w s v.s)
  unused : NoneAccepted w s v.s → v.s.receipts = s.receipts
  others : ∀ a ≠ s.fresh, v.s.heap a = s.heap a
  rest : v.s.msgsOutbound = s.msgsOutbound ∧ v.s.db = s.db ∧ v.s.lastReceipt = s.lastReceipt

theorem opening_begun {id : Nat}
    (split : splitMessage s.markerMaxSizeEver message w.params.maxMessageLength id = .ok m) :
    Opening w s ⟨begunState w s friendNumber m, none, some (s.fresh, message)⟩ := by
  have none : NoneAccepted w s (begunState w s friendNumber m) :=
    fun n new inside => absurd inside (Nat.not_lt.mpr new)
  refine ⟨⟨message, rfl⟩, Nat.le_refl _, Nat.le_refl _, fun _ _ => rfl, fun n p new called => ?_,
    ⟨_, Function.update_self .., ?_⟩, fun _ => rfl, fun a other => Function.update_of_ne other _ _,
    rfl, rfl, rfl⟩
  · exact absurd called.before (Nat.not_lt.mpr new)
  · exact iff_of_true (unsent_of_split split).numTransit none

theorem LiveFor.sent {m' : MsgOutbound} (live : LiveFor s k msg p) (orderly : s.receipts.Ordered)
    (above : ∀ j, s.receipts.key j < w.answer s.base.length) {a : Nat} :
    LiveFor (sentState w s a m i m') k msg p := by
  obtain ⟨held, mine, part⟩ := live
  have inside := (orderly.inside k held).2
  have same : (sentState w s a m i m').receipts.receipts k = s.receipts.receipts k := by
    rw [sentState_receipts above, if_neg (Nat.ne_of_lt inside)]
  exact ⟨by rw [ReceiptTable.key, same]; exact held, by rw [same]; exact mine, by rw [same]; exact part⟩

theorem Opening.move (opening : Opening w s v) (increasing : Increasing w)
    (small : w.params.fragmentsAtATime < 2 ^ 32) (orderly : Orderly w v) (move : Move w .first v v') :
    Opening w s v' := by
  obtain ⟨forming, calls, slots, before, accepted, counted, unused, others, rest⟩ := opening
  cases move with
  | @firstRefused t msg i message m found _ _ _ refused =>
    obtain ⟨_, same⟩ := forming
    cases same
    have none : NoneAccepted w s (refusedState t s.fresh m i) ↔ NoneAccepted w s t :=
      (noneAccepted_snoc rfl calls).trans (and_iff_left refused)
    obtain ⟨m₁, found₁, count⟩ := counted
    refine ⟨⟨_, rfl⟩, Nat.le_trans calls (by simp [refusedState]), slots, before, fun n p new called took => ?_,
      ⟨m₁, found₁, count.trans none.symm⟩, fun all => unused (none.mp all), others, rest⟩
    rcases (callFor_snoc rfl).mp called with earlier | ⟨rfl, _⟩
    · exact accepted n p new earlier took
    · exact absurd refused took
  | @firstSent t msg i message m found _ room _ _ took =>
    obtain ⟨_, same⟩ := forming
    cases same
    have above := orderly.above increasing took
    have ordered : t.receipts.Ordered := orderly.tabled.ordered
    let m' := { partSent m i (w.answer t.base.length) with lastSent := i }
    have table : ∀ k, (sentState w t s.fresh m i m').receipts.receipts k = if k = t.receipts.hi then
        ⟨w.answer t.base.length, s.fresh, i + 1, w.clock t.ticks⟩ else t.receipts.receipts k :=
      fun k => sentState_receipts above
    have taken : ¬ NoneAccepted w s (sentState w t s.fresh m i m') :=
      fun all => took ((noneAccepted_snoc rfl calls).mp all).2
    refine ⟨⟨_, rfl⟩, Nat.le_trans calls (by simp [sentState]), ?_, fun k inside => ?_,
      fun n p new called took => ?_, ⟨m', sentState_heap, ?_⟩, fun all => absurd all taken,
      fun a other => ?_, rest⟩
    · change s.receipts.hi ≤ (t.receipts.addReceipt _).hi
      rw [ReceiptTable.addReceipt_append above]
      exact Nat.le_succ_of_le slots
    · have slots : s.receipts.hi ≤ t.receipts.hi := slots
      exact ((table k).trans (if_neg (by omega))).trans (before k inside)
    · rcases callFor_sent.mp called with earlier | ⟨rfl, _, rfl⟩
      · obtain ⟨k, live⟩ := accepted n p new earlier took
        exact ⟨k, live.sent ordered above⟩
      · refine ⟨t.receipts.hi, ?_, ?_, ?_⟩
        · rw [ReceiptTable.key, table, if_pos rfl]
          exact took
        · rw [table, if_pos rfl]
        · rw [table, if_pos rfl]
    · refine iff_of_false ?_ taken
      change (m.numTransit + 1) % 2 ^ 32 ≠ 0
      omega
    · exact (Function.update_of_ne other _ _).trans (others a other)

theorem attempts_of_base {a count : Nat} (base : s'.base = s.base ++ (List.range' 0 count).map (partCall a m))
    (new : s.base.length ≤ n) (inside : n < s'.base.length) : CallFor s' n a (n - s.base.length + 1) := by
  have bound : n - s.base.length < count := by
    rw [base, List.length_append, List.length_map, List.length_range'] at inside
    omega
  refine ⟨partCall a m (n - s.base.length), ?_, rfl⟩
  rw [base, List.getElem?_append_right new, List.getElem?_map, List.getElem?_range' bound]
  simp

/-- A call is for one part. -/
theorem callFor_unique {a q : Nat} (called : CallFor s n a p) (again : CallFor s n a q) : p = q := by
  obtain ⟨call, found, part⟩ := called
  obtain ⟨call', found', part'⟩ := again
  cases found.symm.trans found'
  cases part.symm.trans part'
  rfl

/-- What there is once the first window has gone out. -/
structure Opened (w : World) (friendNumber : Nat) (message : List UInt8) (m m₁ : MsgOutbound) (s s₁ : State) :
    Prop where
  went : sendFrom w s.fresh m.numParts 0 (begunState w s friendNumber m) = .ok s₁
  found : s₁.heap s.fresh = some m₁
  shape : SameShape { m with friendNumber } m₁
  orderly : Orderly w ⟨s₁, none, some (s.fresh, message)⟩
  opening : Opening w s ⟨s₁, none, some (s.fresh, message)⟩
  base : s₁.base = s.base ++ (comesTo w m.numParts 0 s.base.length 0).map
    (partCall s.fresh { m with friendNumber })

theorem opened_of_split (increasing : Increasing w) (small : w.params.fragmentsAtATime < 2 ^ 32)
    (orderly : Orderly w ⟨s, none, none⟩) (long : w.params.maxMessageLength < message.length)
    (split : splitMessage s.markerMaxSizeEver message w.params.maxMessageLength
      (max (w.clock s.ticks) (s.lastMsgId + 1)) = .ok m) :
    ∃ s₁ m₁, Opened w friendNumber message m m₁ s s₁ := by
  obtain ⟨s₁, m₁, went, found, _, shape, window⟩ := @Anchoring.first_window w s m friendNumber _ message split
  have begun : Move w .form ⟨s, none, none⟩ ⟨begunState w s friendNumber m, none, some (s.fresh, message)⟩ :=
    .begun long split
  obtain ⟨orderly₁, opening⟩ := window.invariant (I := fun v => Orderly w v ∧ Opening w s v)
    (fun same move before =>
      ⟨before.1.move increasing move, before.2.move increasing small before.1 (same ▸ move)⟩)
    ⟨orderly.move increasing begun, opening_begun split⟩
  have base := sendFrom_base (Function.update_self ..) went
  rw [(unsent_of_split split).numTransit] at base
  exact ⟨s₁, m₁, went, found, shape, orderly₁, opening, base⟩

theorem Opened.transit (opened : Opened w friendNumber message m m₁ s s₁) :
    m₁.numTransit = 0 ↔ NoneAccepted w s s₁ := by
  obtain ⟨m', found, counted⟩ := opened.opening.counted
  cases opened.found.symm.trans found
  exact counted

/-- With a window to fill, none is under way exactly if every part would be refused. -/
theorem Opened.refused (opened : Opened w friendNumber message m m₁ s s₁)
    (window : 0 < w.params.fragmentsAtATime) :
    m₁.numTransit = 0 ↔ ∀ i < m.numParts, w.answer (s.base.length + i) = 0 := by
  have longer : s₁.base.length = s.base.length + (comesTo w m.numParts 0 s.base.length 0).length := by
    rw [opened.base, List.length_append, List.length_map]
  rw [opened.transit]
  constructor
  · intro none
    have all := @comesTo_all _ m.numParts 0 s.base.length 0 window fun k inside =>
      none _ (Nat.le_add_right _ k) (by omega)
    exact fun i inside => none _ (Nat.le_add_right _ i) (by omega)
  · intro refused n new inside
    obtain ⟨i, rfl⟩ := Nat.exists_eq_add_of_le new
    have member : i ∈ comesTo w m.numParts 0 s.base.length 0 := by
      rw [comesTo_range]
      exact List.mem_range'_1.mpr ⟨Nat.zero_le _, by omega⟩
    have bound := (le_of_comesTo member).2
    exact refused i (by omega)

/-! ## The two outcomes -/

/-- The record of a part of the message is of one of the calls of its window. -/
theorem Opened.call (opened : Opened w friendNumber message m m₁ s s₁) (issued : Issued w s)
    (live : LiveFor s₁ k s.fresh p) : ∃ n, s.base.length ≤ n ∧ CallFor s₁ n s.fresh p ∧
      w.answer n = s₁.receipts.key k := by
  obtain ⟨held, mine, part⟩ := live
  obtain ⟨n, called, answered⟩ := callFor_record opened.orderly.issued held
  have mine : (s₁.receipts.receipts k).msg = s.fresh := mine
  change CallFor s₁ n (s₁.receipts.receipts k).msg (s₁.receipts.receipts k).partNo at called
  rw [mine, part] at called
  refine ⟨n, Nat.le_of_not_lt fun earlier => ?_, called, answered⟩
  obtain ⟨call, found, part⟩ := called
  rw [opened.base, List.getElem?_append_left earlier] at found
  exact Nat.lt_irrefl _ (issued.called found part).1

theorem Opened.attempts (opened : Opened w friendNumber message m m₁ s s₁) (new : s.base.length ≤ n)
    (inside : n < s₁.base.length) : CallFor s₁ n s.fresh (n - s.base.length + 1) := by
  have base := opened.base
  rw [comesTo_range] at base
  exact attempts_of_base base new inside

theorem Opened.attempted_once {n' : Nat} (opened : Opened w friendNumber message m m₁ s s₁)
    (new : s.base.length ≤ n) (called : CallFor s₁ n s.fresh p) (new' : s.base.length ≤ n')
    (called' : CallFor s₁ n' s.fresh p) : n = n' := by
  have part := callFor_unique called (opened.attempts new called.before)
  have part' := callFor_unique called' (opened.attempts new' called'.before)
  omega

/-- A record has the number that its call was answered with. -/
theorem Opened.answers (opened : Opened w friendNumber message m m₁ s s₁) (issued : Issued w s)
    (live : LiveFor s₁ k s.fresh p) (new : s.base.length ≤ n) (called : CallFor s₁ n s.fresh p) :
    s₁.receipts.key k = w.answer n := by
  obtain ⟨n', new', called', answered⟩ := opened.call issued live
  rw [opened.attempted_once new called new' called', answered]

/-- No part has two records. -/
theorem Opened.once {j : Nat} (opened : Opened w friendNumber message m m₁ s s₁) (issued : Issued w s)
    (first : LiveFor s₁ j s.fresh p) (second : LiveFor s₁ k s.fresh p) : j = k := by
  obtain ⟨n, new, called, answered⟩ := opened.call issued second
  have same : s₁.receipts.key j = s₁.receipts.key k := (opened.answers issued first new called).trans answered
  have increasing := opened.orderly.tabled.ordered.increasing
  rcases Nat.lt_trichotomy j k with before | same' | after
  · exact absurd same (Nat.ne_of_lt (increasing j k before first.1 second.1))
  · exact same'
  · exact absurd same.symm (Nat.ne_of_lt (increasing k j after second.1 first.1))

theorem pending_inserted {limit : BlobLimit} {db db' : Db} {id numParts receipt : Nat}
    (parts : numParts ≤ message.length)
    (stored : dbInsertOutboundMessage limit db friendNumber type id id numParts message receipt = .ok db') :
    ∃ p ∈ stmtSelectFragmentedOutboundPending db', p.friendNumber = friendNumber ∧ p.type = type ∧
      p.id = id ∧ p.message = message ∧ p.numParts = numParts ∧ p.numConfirmed = 0 ∧
      p.confirmed = List.replicate numParts 0 := by
  obtain ⟨own, _⟩ := rows_inserted stored
  have fits := length_le_of_inserted stored
  have bound : limit.val < 2 ^ 31 := limit.property
  have count : toInt32 numParts = numParts := toInt32_of_lt (by omega)
  obtain ⟨row, data, here, metaRow, dataRow⟩ : ∃ row data,
      rows db' (outboundKey friendNumber id) = ⟨some row, some data⟩ ∧
      row = ⟨type, toInt64 id, toInt64 id, 0, toInt32 numParts⟩ ∧
      data = ⟨message, some (List.replicate (toInt32 numParts).toNat 0), some (toInt32 receipt)⟩ :=
    ⟨_, _, own, rfl, rfl⟩
  have whole : toUnsigned numParts = numParts := toUnsigned_of_lt (by omega)
  have none : toUnsigned 0 = 0 := by simp [toUnsigned]
  rw [count] at metaRow dataRow
  refine ⟨pendingOf (outboundKey friendNumber id) row data, mem_pending.mpr ⟨row, data, here, rfl⟩, rfl, ?_,
    rfl, ?_, ?_, ?_, ?_⟩
  · rw [pendingOf, metaRow]
  · rw [pendingOf, dataRow]
  · rw [pendingOf, metaRow]
    exact whole
  · rw [pendingOf, metaRow]
    exact none
  · rw [pendingOf, dataRow]
    rfl

/-- The message `m` once its part of the send is done. -/
theorem Opened.underway {db : Db} (opened : Opened w friendNumber message m m₁ s s₁)
    (issued : Issued w s) (inRange : InRange w.params number) (parts : m.numParts ≤ message.length)
    (stored : dbInsertOutboundMessage w.limit s₁.db friendNumber type m₁.id m₁.id m₁.numParts message number =
      .ok db)
    (heap : s'.heap = Function.update s₁.heap s.fresh (some { m₁ with type, receipt := number }))
    (list : s'.msgsOutbound = msgsOutboundLink s₁.msgsOutbound s.fresh) (store : s'.db = db)
    (base : s'.base = s₁.base) (receipts : s'.receipts = s₁.receipts) :
    Underway w friendNumber type message number { m₁ with type, receipt := number } s s' := by
  have called : ∀ {n p}, CallFor s' n s.fresh p ↔ CallFor s₁ n s.fresh p := callFor_frame base
  have live : ∀ {k p}, LiveFor s' k s.fresh p ↔ LiveFor s₁ k s.fresh p := by
    intro k p
    rw [LiveFor, LiveFor, receipts]
  refine ⟨inRange, ⟨?_, ?_, rfl⟩, ?_, fun n new inside => ?_, fun p => ⟨?_, ?_⟩,
    fun j k p first second => ?_, fun k n p held new call => ?_, fun k inside => ?_⟩
  · rw [list]
    exact mem_link.mpr (.inl rfl)
  · rw [heap]
    exact Function.update_self ..
  · rw [store]
    exact pending_inserted (Nat.le_trans (Nat.le_of_eq opened.shape.numParts) parts) stored
  · rw [base] at inside
    exact called.mpr (opened.attempts new inside)
  · rintro ⟨k, held⟩
    obtain ⟨n, new, call, answered⟩ := opened.call issued (live.mp held)
    exact ⟨n, new, called.mpr call, answered ▸ (live.mp held).1⟩
  · rintro ⟨n, new, call, taken⟩
    obtain ⟨k, held⟩ := opened.opening.accepted n p new (called.mp call) taken
    exact ⟨k, live.mpr held⟩
  · exact opened.once issued (live.mp first) (live.mp second)
  · rw [receipts]
    exact opened.answers issued (live.mp held) new (called.mp call)
  · rw [receipts]
    exact opened.opening.before k inside

/-- A message that is deleted again leaves nothing behind. -/
theorem Opened.untouched (opened : Opened w friendNumber message m m₁ s s₁) (issued : Issued w s)
    (none : NoneAccepted w s s₁) : Untouched s (msgOutboundDelete s₁ s.fresh) := by
  obtain ⟨list, db, last⟩ := opened.opening.rest
  refine ⟨list, funext fun a => ?_, opened.opening.unused none, db, last⟩
  change Function.update s₁.heap s.fresh Option.none a = s.heap a
  by_cases own : a = s.fresh
  · rw [own, Function.update_self]
    cases here : s.heap s.fresh with
    | none => rfl
    | some m => exact absurd (issued.below here) (Nat.lt_irrefl _)
  · rw [Function.update_of_ne own]
    exact opened.opening.others a own

/-! ## The call -/

/-- The end of the call depends on what is under way. -/
theorem Opened.fares (opened : Opened w friendNumber message m m₁ s s₁)
    (split : splitMessage s.markerMaxSizeEver message w.params.maxMessageLength
      (max (w.clock s.ticks) (s.lastMsgId + 1)) = .ok m) :
    friendSendMessageLong w s friendNumber type message =
      if 0 < m₁.numTransit then do
        let (receipt, s₂) ← generateReceiptNo w s₁
        let s₃ ← acceptMessage w s₂ s.fresh m₁ friendNumber type message receipt
        pure (s₃, receipt)
      else .ok (msgOutboundDelete s₁ s.fresh, 0) := by
  have went := opened.went
  have found := msgAt_ok.mpr opened.found
  simp only [friendSendMessageLong, generateMsgId, getCurrTimeMs]
  rw [split]
  change (sendFrom w s.fresh m.numParts 0 (begunState w s friendNumber m) >>= _) = _
  rw [went]
  change (s₁.msgAt s.fresh >>= _) = _
  rw [found]
  rfl

theorem Opened.allOrNothing (opened : Opened w friendNumber message m m₁ s s₁) (issued : Issued w s)
    (ranged : ReceiptNumbers.Ranged w.params) (prepared : Prepared w s) (nonempty : message ≠ [])
    (split : splitMessage s.markerMaxSizeEver message w.params.maxMessageLength
      (max (w.clock s.ticks) (s.lastMsgId + 1)) = .ok m)
    (ran : friendSendMessageLong w s friendNumber type message = .ok (s', number)) :
    AllOrNothing w friendNumber type message number s s' := by
  have range : ClientView.ProperRange w.params := ⟨ranged.ordered, ranged.small⟩
  rw [opened.fares split] at ran
  split at ran
  · rename_i taken
    obtain ⟨⟨r, s₂⟩, numbers, ran⟩ := bind_ok.mp ran
    obtain ⟨s₃, accepted, ran⟩ := bind_ok.mp ran
    cases ran
    obtain ⟨r, free, numbers⟩ := bind_ok.mp numbers
    cases numbers
    obtain ⟨db, stored, accepted⟩ := bind_ok.mp accepted
    cases accepted
    have any : ¬ NoneAccepted w s s₁ := fun none => Nat.ne_of_gt taken (opened.transit.mpr none)
    have last : s₁.lastReceipt = s.lastReceipt := opened.opening.rest.2.2
    rw [last] at free
    have inRange : InRange w.params number :=
      ClientView.avoidPending_inRange range (ClientView.nextReceiptNo_inRange range prepared.last) free
    have positive := ranged.positive
    have parts := Bookkeeping.numParts_le_of_split nonempty split
    have nonzero : number ≠ 0 := Nat.ne_of_gt (Nat.lt_of_lt_of_le positive inRange.1)
    refine ⟨iff_of_false nonzero any, fun none => absurd none any, fun _ => ?_⟩
    exact ⟨_, opened.underway issued inRange parts stored rfl rfl rfl rfl rfl⟩
  · rename_i idle
    cases ran
    have none : NoneAccepted w s s₁ := opened.transit.mp (by omega)
    exact ⟨iff_of_true rfl none, fun _ => opened.untouched issued none, fun any => absurd none any⟩

/-- The store takes the message's row or it aborts. -/
theorem acceptMessage_ends {receipt : Nat} (free : rows s.db (outboundKey friendNumber m.id) = {})
    (parts : m.numParts ≤ message.length) :
    (w.limit.val < outboundRowBytes friendNumber m.id message.length m.numParts receipt →
      acceptMessage w s msg m friendNumber type message receipt = .error .abort) ∧
    (outboundRowBytes friendNumber m.id message.length m.numParts receipt ≤ w.limit.val →
      ∃ s', acceptMessage w s msg m friendNumber type message receipt = .ok s') := by
  refine ⟨fun large => ?_, fun fits => ?_⟩
  · rw [← Nat.not_le, ← row_fits_iff parts, Nat.not_le] at large
    unfold acceptMessage
    rw [insert_aborts large]
    rfl
  · have row := (row_fits_iff parts).mpr fits
    exact ⟨_, bind_ok.mpr ⟨_, insert_ok_iff.mpr ⟨free, row, rfl⟩, rfl⟩⟩

/-- The number a message gets does not depend on how its window went out. -/
theorem Opened.sameNumber (opened : Opened w friendNumber message m m₁ s s₁) (orderly : Orderly w ⟨s, none, none⟩)
    (numbered : generateReceiptNo w s = .ok (number, { s with lastReceipt := number })) :
    generateReceiptNo w s₁ = .ok (number, { s₁ with lastReceipt := number }) := by
  obtain ⟨list, _, last⟩ := opened.opening.rest
  have list : s₁.msgsOutbound = s.msgsOutbound := list
  have last : s₁.lastReceipt = s.lastReceipt := last
  have pending : s₁.pending = s.pending := by
    rw [State.pending, State.pending, list]
    refine List.filterMap_congr fun a member => ?_
    obtain ⟨m', held⟩ := orderly.linked.held a member
    have older : a ≠ s.fresh := Nat.ne_of_lt (orderly.issued.below held)
    exact congrArg _ (opened.opening.others a older)
  obtain ⟨r, found, same⟩ := bind_ok.mp numbered
  cases same
  rw [generateReceiptNo, pending, list, last, found]
  rfl

/-- Of a message that has no row yet, a part that went out aborts the process
exactly if the store does not take its row. -/
theorem Opened.aborts_iff (opened : Opened w friendNumber message m m₁ s s₁)
    (orderly : Orderly w ⟨s, none, none⟩) (nonempty : message ≠ [])
    (numbered : generateReceiptNo w s = .ok (number, { s with lastReceipt := number }))
    (unused : rows s.db (outboundKey friendNumber (max (w.clock s.ticks) (s.lastMsgId + 1))) = {})
    (split : splitMessage s.markerMaxSizeEver message w.params.maxMessageLength
      (max (w.clock s.ticks) (s.lastMsgId + 1)) = .ok m) :
    ((∃ s' number, friendSendMessageLong w s friendNumber type message = .ok (s', number)) ∨
      friendSendMessageLong w s friendNumber type message = .error .abort) ∧
    (friendSendMessageLong w s friendNumber type message = .error .abort ↔
      w.limit.val < outboundRowBytes friendNumber m.id message.length m.numParts number ∧
        m₁.numTransit ≠ 0) := by
  obtain ⟨_, db, _⟩ := opened.opening.rest
  have own : m₁.id = max (w.clock s.ticks) (s.lastMsgId + 1) := opened.shape.id.trans (unsent_of_split split).id_eq
  have free : rows s₁.db (outboundKey friendNumber m₁.id) = {} := by
    rw [own, show s₁.db = s.db from db]
    exact unused
  rw [opened.fares split]
  by_cases taken : 0 < m₁.numTransit
  · rw [if_pos taken, opened.sameNumber orderly numbered]
    have whole := Bookkeeping.numParts_le_of_split nonempty split
    have parts : m₁.numParts ≤ message.length := Nat.le_trans (Nat.le_of_eq opened.shape.numParts) whole
    obtain ⟨aborts, returns⟩ := @acceptMessage_ends w { s₁ with lastReceipt := number } friendNumber s.fresh type
      message m₁ number free parts
    rw [show m₁.id = m.id from opened.shape.id, show m₁.numParts = m.numParts from opened.shape.numParts] at aborts returns
    rcases Nat.lt_or_ge w.limit.val (outboundRowBytes friendNumber m.id message.length m.numParts number) with
      large | fits
    · simp only [bind, Except.bind, aborts large]
      exact ⟨.inr trivial, iff_of_true trivial ⟨large, Nat.ne_of_gt taken⟩⟩
    · obtain ⟨s₂, accepted⟩ := returns fits
      simp only [bind, Except.bind, accepted]
      exact ⟨.inl ⟨_, _, rfl⟩, iff_of_false nofun fun both => absurd both.1 (Nat.not_lt.mpr fits)⟩
  · rw [if_neg taken]
    refine ⟨.inl ⟨_, _, rfl⟩, iff_of_false nofun fun both => both.2 (by omega)⟩

/-! ## Every reachable state -/

/-- What the client and the base library are expected to keep to. `maxMessageLength`
and `fragmentsAtATime` are each an `unsigned`. -/
structure Sensible (w : World) : Prop where
  increasing : Increasing w
  ranged : ReceiptNumbers.Ranged w.params
  window : 0 < w.params.fragmentsAtATime
  windowSmall : w.params.fragmentsAtATime < 2 ^ 32
  limit : 63 < w.params.maxMessageLength
  limitSmall : w.params.maxMessageLength < 2 ^ 32

variable {ops : List Op}

/-- In every reachable state the message is split and its first window goes out. -/
theorem opened_of_run (sensible : Sensible w)
    (run : Run (step w) (fun _ op => Proper op) (Begins w) ops s)
    (long : w.params.maxMessageLength < message.length) : Prepared w s ∧ ∃ m,
      splitMessage s.markerMaxSizeEver message w.params.maxMessageLength
        (max (w.clock s.ticks) (s.lastMsgId + 1)) = .ok m ∧
      ∃ s₁ m₁, Opened w friendNumber message m m₁ s s₁ := by
  have orderly := orderly_of_run sensible.increasing run
  have prepared := prepared_of_run ⟨sensible.ranged.ordered, sensible.ranged.small⟩ run
  have reserved : s.markerMaxSizeEver ≤ 63 := by
    rw [prepared.marker]
    exact markerMaxSizeBytes_le (by decide) (by decide)
  obtain ⟨m, split⟩ := @splitMessage_returns _ _ (max (w.clock s.ticks) (s.lastMsgId + 1)) message reserved
    sensible.limit sensible.limitSmall
  exact ⟨prepared, m, split, opened_of_split sensible.increasing sensible.windowSmall orderly long split⟩

/-- A send whose id has no row for the friend yet ends in one of two ways. -/
def EndsAsRowFits (w : World) (s : State) (friendNumber : Nat) (type : Int) (message : List UInt8) : Prop :=
  ∃ m number, splitMessage s.markerMaxSizeEver message w.params.maxMessageLength (generateMsgId w s).1 = .ok m ∧
    generateReceiptNo w s = .ok (number, { s with lastReceipt := number }) ∧
    ((∃ s' number, friendSendMessageLong w s friendNumber type message = .ok (s', number)) ∨
      friendSendMessageLong w s friendNumber type message = .error .abort) ∧
    (friendSendMessageLong w s friendNumber type message = .error .abort ↔
      w.limit.val < outboundRowBytes friendNumber m.id message.length m.numParts number ∧
        ∃ i < m.numParts, w.answer (s.base.length + i) ≠ 0)

theorem ends_of_run (sensible : Sensible w) (run : Run (step w) (fun _ op => Proper op) (Begins w) ops s)
    (long : w.params.maxMessageLength < message.length)
    (fewer : s.msgsOutbound.length < ReceiptNumbers.numbers w.params)
    (unused : rows s.db (outboundKey friendNumber (generateMsgId w s).1) = {}) :
    EndsAsRowFits w s friendNumber type message := by
  obtain ⟨prepared, m, split, s₁, m₁, opened⟩ := @opened_of_run _ _ friendNumber _ _ sensible run long
  have orderly := orderly_of_run sensible.increasing run
  have nonempty : message ≠ [] := List.ne_nil_of_length_pos (by omega)
  obtain ⟨number, numbered, _⟩ := ReceiptNumbers.generateReceiptNo_ok sensible.ranged prepared.last fewer
  obtain ⟨ends, aborts⟩ := @Opened.aborts_iff _ _ _ _ _ type _ _ _ opened orderly nonempty numbered unused split
  refine ⟨m, number, split, numbered, ends, aborts.trans (and_congr_right fun _ => ?_)⟩
  rw [Ne, opened.refused sensible.window]
  simp only [not_forall, exists_prop, ne_eq]

/-- A long send that returns is all or nothing. Where the message's id is new it
returns, unless a part is accepted of a message whose row is too large for the
store, which aborts the process. -/
theorem long_send_all_or_nothing (sensible : Sensible w)
    (run : Run (step w) (fun _ op => Proper op) (Begins w) ops s)
    (long : w.params.maxMessageLength < message.length)
    (fewer : s.msgsOutbound.length < ReceiptNumbers.numbers w.params) :
    (∀ s' number, friendSendMessageLong w s friendNumber type message = .ok (s', number) →
      AllOrNothing w friendNumber type message number s s') ∧
    (rows s.db (outboundKey friendNumber (generateMsgId w s).1) = {} →
      EndsAsRowFits w s friendNumber type message) := by
  obtain ⟨prepared, m, split, s₁, m₁, opened⟩ := @opened_of_run _ _ friendNumber _ _ sensible run long
  have orderly := orderly_of_run sensible.increasing run
  have nonempty : message ≠ [] := List.ne_nil_of_length_pos (by omega)
  refine ⟨fun s' number ran => ?_, ends_of_run sensible run long fewer⟩
  exact opened.allOrNothing orderly.issued sensible.ranged prepared nonempty split ran

/-- Messages have 64 bytes, and the base library answers so. -/
def answering (answers : List Nat) : World := scripted { maxMessageLength := 64 } answers []

theorem sensible_answering {answers : List Nat}
    (sorted : ∀ i < answers.length, ∀ j < answers.length, i < j ∧ answers.getD i 0 ≠ 0 ∧
      answers.getD j 0 ≠ 0 → answers.getD i 0 < answers.getD j 0) : Sensible (answering answers) where
  increasing := increasing_scripted sorted
  ranged := ⟨by simp [answering, scripted], by simp [answering, scripted], by simp [answering, scripted]⟩
  window := by simp [answering, scripted]
  windowSmall := by simp [answering, scripted]
  limit := by simp [answering, scripted]
  limitSmall := by simp [answering, scripted]

/-- Two of four parts are accepted. -/
theorem two_of_four_accepted : ∃ s, Run (step (answering [5, 6, 0, 7, 0, 8])) (fun _ op => Proper op)
      (Begins (answering [5, 6, 0, 7, 0, 8])) [.send 1 0 (List.replicate 65 1) fun _ => 0] s ∧
    ∃ s', friendSendMessageLong (answering [5, 6, 0, 7, 0, 8]) s 2 1 (List.replicate 100 2) =
        .ok (s', 0x70000002) ∧
      AllOrNothing (answering [5, 6, 0, 7, 0, 8]) 2 1 (List.replicate 100 2) 0x70000002 s s' := by
  let w := answering [5, 6, 0, 7, 0, 8]
  have begins : Begins w (initialState w) := ⟨{}, started_initialState w⟩
  obtain ⟨s, run, checked⟩ := exists_run (step w) (fun _ op => Proper op)
    [.send 1 0 (List.replicate 65 1) fun _ => 0]
    (fun s => s.msgsOutbound.length = 1 ∧
      (friendSendMessageLong w s 2 1 (List.replicate 100 2)).toOption.map Prod.snd = some 0x70000002)
    begins (by decide +kernel)
  obtain ⟨one, number⟩ := of_decide_eq_true checked
  refine ⟨s, run, ?_⟩
  cases ran : friendSendMessageLong w s 2 1 (List.replicate 100 2) with
  | error fault =>
    rw [ran] at number
    cases number
  | ok returned =>
    obtain ⟨s', r⟩ := returned
    rw [ran] at number
    cases Option.some.inj number
    have outcome := (@long_send_all_or_nothing w s 2 1 (List.replicate 100 2) _ (sensible_answering (by decide)) run
      (by decide) (by rw [one]; decide)).1
    exact ⟨s', rfl, outcome s' _ ran⟩

/-- The first part of a message of a billion bytes and one goes out, and then
the process is aborted. -/
theorem oversized_send_aborts : ¬ ∀ (w : World) (ops : List Op) (s : State) (friendNumber : Nat) (type : Int)
    (message : List UInt8), Sensible w → Run (step w) (fun _ op => Proper op) (Begins w) ops s →
    w.params.maxMessageLength < message.length → s.msgsOutbound.length < ReceiptNumbers.numbers w.params →
    ∃ s' number, friendSendMessageLong w s friendNumber type message = .ok (s', number) ∧
      AllOrNothing w friendNumber type message number s s' := by
  intro claimed
  let w := answering [5]
  have sensible : Sensible w := sensible_answering (by decide)
  have run : Run (step w) (fun _ op => Proper op) (Begins w) [] (initialState w) :=
    .nil ⟨{}, started_initialState w⟩
  obtain ⟨message, length⟩ : ∃ message : List UInt8, message.length = 1000000001 :=
    ⟨List.replicate 1000000001 0, List.length_replicate⟩
  have long : w.params.maxMessageLength < message.length := by
    rw [length]
    decide
  have fewer : (initialState w).msgsOutbound.length < ReceiptNumbers.numbers w.params := by decide
  obtain ⟨m, number, split, _, _, aborts⟩ := @ends_of_run w (initialState w) 1 0 message [] sensible run long fewer rfl
  have reserved : (initialState w).markerMaxSizeEver ≤ 63 := markerMaxSizeBytes_le (by decide) (by decide)
  have small : message.length < 2 ^ 32 := by
    rw [length]
    decide
  have pieces := @splitMessage_eq _ _ (max (w.clock 0) 1) message reserved sensible.limit sensible.limitSmall small
  cases pieces.symm.trans split
  have positive := chunkSize_pos reserved sensible.limit small
  have parts := (lt_pieceCount_iff positive).mpr (show 0 * _ < message.length by omega)
  have large : w.limit.val < message.length := by
    rw [length]
    decide
  have row := fun id parts => (outboundRowBytes_bounds 1 id message.length parts number).1
  have aborted := aborts.mpr ⟨Nat.lt_trans large (Nat.lt_of_le_of_lt (Nat.le_add_right ..) (row ..)), 0, parts, by decide⟩
  obtain ⟨s', number, returned, _⟩ := claimed w [] (initialState w) 1 0 message sensible run long fewer
  cases aborted.symm.trans returned

end Defragmenter.LongSends
