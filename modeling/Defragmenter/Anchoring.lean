import Defragmenter.Bookkeeping
import Defragmenter.Window

/-! Records and the messages they point at. A record is only good as long as
its message is kept. While the accounts are right a message is given up with no
record left that waits for it, so nothing that follows a record fails. -/
namespace Defragmenter.Anchoring
open Database InboundStore OutboundStore Split Receipts Sender Moves Provenance Tracking
  Accounting Messages Window Bookkeeping Runs

/-- The message of every live record exists. -/
def Anchored (v : View) : Prop :=
  ∀ k, Live v k → ∃ m, v.s.heap (v.s.receipts.receipts k).msg = some m

variable {w : World} {v v' : View} {label : Label} {s s' : State} {taken taken' : Option Nat}
  {forming forming' : Option (Nat × List UInt8)} {msg i a k : Nat} {m m' : MsgOutbound}

theorem Anchored.frame (anchored : Anchored ⟨s, taken, forming⟩) (heap : s'.heap = s.heap)
    (receipts : s'.receipts = s.receipts) : Anchored ⟨s', taken, forming'⟩ := by
  unfold Anchored Live at *
  simp only [heap, receipts] at *
  exact anchored

theorem Anchored.update (anchored : Anchored ⟨s, taken, forming⟩)
    (heap : s'.heap = Function.update s.heap msg (some m)) (receipts : s'.receipts = s.receipts) :
    Anchored ⟨s', taken, forming'⟩ := by
  intro k live
  change s'.receipts.key k ≠ 0 ∧ taken ≠ some k at live
  change ∃ m, s'.heap (s'.receipts.receipts k).msg = some m
  rw [receipts] at live ⊢
  rw [heap]
  exact held_update (anchored k live)

/-- A message is given up that no record waits for. -/
theorem Anchored.erase (anchored : Anchored ⟨s, taken, forming⟩)
    (free : ∀ k, Live ⟨s, taken, forming⟩ k → (s.receipts.receipts k).msg ≠ msg)
    (heap : s'.heap = Function.update s.heap msg none) (receipts : s'.receipts = s.receipts) :
    Anchored ⟨s', taken, forming'⟩ := by
  intro k live
  change s'.receipts.key k ≠ 0 ∧ taken ≠ some k at live
  change ∃ m, s'.heap (s'.receipts.receipts k).msg = some m
  rw [receipts] at live ⊢
  rw [heap, Function.update_of_ne (free k live)]
  exact anchored k live

theorem Anchored.release (anchored : Anchored ⟨s, taken, forming⟩) (heap : s'.heap = s.heap)
    (kept : ∀ k, Live ⟨s', taken', forming'⟩ k → Live ⟨s, taken, forming⟩ k ∧
      s'.receipts.receipts k = s.receipts.receipts k) : Anchored ⟨s', taken', forming'⟩ := by
  intro k live
  obtain ⟨before, same⟩ := kept k live
  change ∃ m, s'.heap (s'.receipts.receipts k).msg = some m
  rw [heap, same]
  exact anchored k before

theorem Anchored.sent (anchored : Anchored ⟨s, taken, forming⟩)
    (above : ∀ j, s.receipts.key j < w.answer s.base.length) :
    Anchored ⟨sentState w s msg m i m', taken, forming⟩ := by
  intro k live
  obtain ⟨held, untaken⟩ := live
  simp only [sentState_key above] at held
  simp only [sentState_receipts above]
  by_cases new : k = s.receipts.hi
  · rw [if_pos new]
    exact ⟨m', sentState_heap⟩
  · rw [if_neg new] at held ⊢
    exact held_update (anchored k ⟨held, untaken⟩)

theorem Anchored.lost {j : Nat} (anchored : Anchored ⟨s, none, none⟩) :
    Anchored ⟨lostState s j msg m, none, none⟩ := by
  have updated : Anchored ⟨{ s with heap := Function.update s.heap msg (some (partLost m)) }, none, none⟩ :=
    anchored.update rfl rfl
  refine updated.release rfl fun k live => ?_
  obtain ⟨before, _, same⟩ := live_lost live
  exact ⟨before, same⟩

/-- The expiry of a record leaves the others with their messages. -/
theorem Anchored.expiry {now : Nat} (anchored : Anchored v) (orderly : Orderly w v)
    (increasing : Increasing w) (move : Move w (.expiry now) v v') : Anchored v' := by
  cases move with
  | lost => exact anchored.lost.frame rfl rfl
  | @resent s _ j m _ _ found accepted =>
    have issued : Issued w s := orderly.issued
    exact anchored.lost.sent (above_of_increasing increasing (issued.lost j found) accepted)

/-- All parts of a complete message are confirmed, and none is waited for. -/
theorem free_of_complete (owned : Owned ⟨s, taken, forming⟩) (issued : Issued w s)
    (found : s.heap msg = some m) (all : m.numParts ≤ m.numConfirmed) :
    ∀ k, Live ⟨s, taken, forming⟩ k → (s.receipts.receipts k).msg ≠ msg := by
  intro k live mine
  subst mine
  have own : (part m ((s.receipts.receipts k).partNo - 1)).confirmed = false := (owned.owns k m live found).2
  have inside : (s.receipts.receipts k).partNo - 1 < m.numParts := issued.index live.1 found
  have small := (confirmedParts_partConfirmed (issued.shaped found).1 inside own).2
  have counted : m.numConfirmed = (confirmedParts m).card := owned.counted _ m found
  omega

/-- Every move keeps the records' messages while the accounts are right. -/
theorem Anchored.move (anchored : Anchored v) (windowed : Windowed w v) (orderly : Orderly w v)
    (owned : Owned v) (increasing : Increasing w) (move : Move w label v v') : Anchored v' := by
  cases move with
  | idle | short | passed | firstRefused | nextRefused | failedRefused =>
    exact anchored.frame rfl rfl
  | begun | opened => exact anchored.update rfl rfl
  | @dropped s msg message m found none_ =>
    refine anchored.erase (fun k live mine => ?_) rfl rfl
    have member : k ∈ waiting ⟨s, none, some (msg, message)⟩ msg :=
      (mem_waiting orderly.tabled).mpr ⟨live, mine⟩
    have counted := (windowed msg m found).1
    rw [none_] at counted
    rw [Finset.card_eq_zero.mp counted.symm] at member
    exact Finset.notMem_empty k member
  | firstSent _ _ _ _ _ accepted | nextSent _ _ _ _ accepted | failedSent _ _ _ _ accepted =>
    exact anchored.sent (orderly.above increasing accepted)
  | lost held late found refused =>
    exact anchored.expiry orderly increasing (.lost held late found refused)
  | resent held late found accepted =>
    exact anchored.expiry orderly increasing (.resent held late found accepted)
  | @confirmed s _ _ j m db =>
    intro k live
    exact held_update (anchored k ⟨live.1, nofun⟩)
  | completed found all =>
    exact anchored.erase (free_of_complete owned orderly.issued found all) rfl rfl
  | @cleared s _ _ j =>
    refine anchored.release rfl fun k live => ?_
    obtain ⟨held, other⟩ := live_cleared.mp live
    refine ⟨⟨held, fun same => other (Option.some.inj same).symm⟩, ?_⟩
    change ((s.receipts.clear j).trim j).receipts k = _
    rw [ReceiptTable.receipts_trim, ReceiptTable.receipts_clear_ne other]

/-! ## Calls return -/

theorem sendFrom_returns {count : Nat} : ∀ {i : Nat} {s : State} {m : MsgOutbound},
    s.heap msg = some m → ∃ s' m', sendFrom w msg count i s = .ok s' ∧ s'.heap msg = some m' := by
  induction count with
  | zero =>
    intro i s m found
    exact ⟨s, m, rfl, found⟩
  | succ count ih =>
    intro i s m found
    rw [sendFrom_succ found]
    split
    · split
      · have found' : (refusedState s msg m i).heap msg = some m := found
        exact ih found'
      · exact ih sentState_heap
    · exact ⟨s, m, rfl, found⟩

/-- The first window leaves the store as it was, and the message its id. -/
theorem sendFrom_stored {message : List UInt8} (chain : Chain w (· = .first)
      ⟨s, none, some (msg, message)⟩ ⟨s', none, some (msg, message)⟩) (here : s.heap msg = some m) :
    s'.db = s.db ∧ ∀ m', s'.heap msg = some m' → SameShape m m' := by
  have held := chain.invariant
    (I := fun v => v.s.db = s.db ∧ ∀ m', v.s.heap msg = some m' → SameShape m m') ?_ ?_
  · exact held
  · intro label v v' first move before
    cases first
    cases move with
    | firstRefused => exact before
    | @firstSent s₁ msg₁ i _ m₁ here₁ =>
      refine ⟨before.1, fun m' after => ?_⟩
      obtain ⟨mine, same⟩ | ⟨_, there⟩ := heap_update_iff.mp after
      · cases same
        exact (before.2 m₁ (mine ▸ here₁)).trans sameShape_sentLast
      · exact before.2 m' there
  · refine ⟨rfl, fun m' after => ?_⟩
    cases here.symm.trans after
    exact ⟨rfl, rfl, rfl, rfl⟩

/-- The first window of a message that was just split goes out, whatever is refused. -/
theorem first_window {friendNumber id : Nat} {message : List UInt8}
    (split : splitMessage s.markerMaxSizeEver message w.params.maxMessageLength id = .ok m) :
    ∃ s₁ m₁, sendFrom w s.fresh m.numParts 0 (begunState w s friendNumber m) = .ok s₁ ∧
      s₁.heap s.fresh = some m₁ ∧ s₁.db = s.db ∧ SameShape { m with friendNumber } m₁ ∧
      Chain w (· = .first) ⟨begunState w s friendNumber m, none, some (s.fresh, message)⟩
        ⟨s₁, none, some (s.fresh, message)⟩ := by
  have unsent := unsent_of_split split
  have here : (begunState w s friendNumber m).heap s.fresh = some { m with friendNumber } :=
    Function.update_self ..
  obtain ⟨s₁, m₁, went, found⟩ := @sendFrom_returns w s.fresh m.numParts 0 _ _ here
  obtain ⟨window, _⟩ := sendFrom_first message here (Nat.le_of_eq unsent.lastSent)
    (fun _ => Nat.zero_le _) (fun k _ => blank_of_unsent unsent k) (Nat.zero_add _) went
  obtain ⟨store, shape⟩ := sendFrom_stored window here
  exact ⟨s₁, m₁, went, found, store, shape m₁ found, window⟩

theorem sendFailed_returns {count : Nat} : ∀ {i : Nat} {s : State} {m : MsgOutbound},
    s.heap msg = some m → ∃ s', sendFailed w msg count i s = .ok s' := by
  induction count with
  | zero =>
    intro i s m _
    exact ⟨s, rfl⟩
  | succ count ih =>
    intro i s m found
    rw [sendFailed, msgAt_ok.mpr found]
    simp only [bind, Except.bind]
    split
    · split
      · rw [msgSendPart_eq found]
        by_cases refused : w.answer s.base.length = 0
        · simp only [refused, ↓reduceIte]
          have found' : (refusedState s msg m i).heap msg = some m := found
          exact ih found'
        · simp only [refused, ↓reduceIte]
          exact ih sentState_heap
      · exact ih found
    · exact ⟨s, rfl⟩

theorem serve_returns (found : ∃ m, s.heap msg = some m) : ∃ s', serve w s msg = .ok s' := by
  obtain ⟨m, found⟩ := found
  unfold serve isFriendOnline
  dsimp only
  split
  · have here : State.msgAt { s with polls := s.polls + 1 } msg = .ok m := msgAt_ok.mpr found
    have found' : ({ s with polls := s.polls + 1 } : State).heap msg = some m := found
    obtain ⟨s₁, m₁, went, found₁⟩ :=
      @sendFrom_returns w msg (m.numParts - (m.lastSent + 1)) (m.lastSent + 1) _ m found'
    obtain ⟨s', failed⟩ := @sendFailed_returns w msg m.numParts 0 s₁ m₁ found₁
    exact ⟨s', bind_ok.mpr ⟨m, here, bind_ok.mpr ⟨s₁, went, failed⟩⟩⟩
  · exact ⟨_, rfl⟩

/-- Sending more of a message gives up none. -/
theorem serves_held {taken : Option Nat} (serves : Serves w taken msg s s')
    (found : ∃ m, s.heap a = some m) : ∃ m, s'.heap a = some m := by
  refine serves.chain.invariant (I := fun v => ∃ m, v.s.heap a = some m) ?_ found
  rintro label v v' admitted move ⟨m, here⟩
  cases change_of_move move with
  | quiet kept => exact kept.forth here
  | begun | opened | dropped | completed => rcases admitted with same | same | same <;> cases same

theorem sendMore_returns {msgs : List Nat} : ∀ {s : State},
    (∀ a ∈ msgs, ∃ m, s.heap a = some m) → ∃ s', msgs.foldlM (serve w) s = .ok s' := by
  induction msgs with
  | nil =>
    intro s _
    exact ⟨s, rfl⟩
  | cons msg rest ih =>
    intro s held
    obtain ⟨s₁, went⟩ := serve_returns (w := w) (held msg List.mem_cons_self)
    have serves : Serves w none msg s s₁ := serve_serves none went
    obtain ⟨s', ran⟩ := @ih s₁ fun a member => serves_held serves (held a (List.mem_cons_of_mem _ member))
    exact ⟨s', by rw [List.foldlM_cons]; exact bind_ok.mpr ⟨s₁, went, ran⟩⟩

/-- An expiry pass follows no record to a message that is gone. -/
theorem resendFrom_returns {now fuel : Nat} (increasing : Increasing w) : ∀ {i : Nat} {s : State},
    Orderly w ⟨s, none, none⟩ → Anchored ⟨s, none, none⟩ →
    ∀ fault, resendFrom w now fuel i s = .error fault → fault = .diverges := by
  induction fuel with
  | zero =>
    intro i s _ _ fault ran
    cases ran
    rfl
  | succ fuel ih =>
    intro i s orderly anchored fault ran
    by_cases inside : i < s.receipts.hi
    · by_cases late : expired w now (s.receipts.receipts i) = true
      · have held : s.receipts.key i ≠ 0 := held_of_expired late
        obtain ⟨m, found⟩ := anchored i ⟨held, nofun⟩
        have follow : ∀ {s₁ : State}, Move w (.expiry now) ⟨s, none, none⟩ ⟨s₁, none, none⟩ →
            resendFrom w now fuel (i + 1) s₁ = .error fault → fault = .diverges :=
          fun move => ih (orderly.move increasing move) (anchored.expiry orderly increasing move) fault
        rw [resendFrom_late inside late found] at ran
        split at ran
        · rename_i refused
          exact follow (.lost held late found refused) ran
        · rename_i accepted
          exact follow (.resent held late found accepted) ran
      · simp only [resendFrom, if_pos inside, if_neg late] at ran
        exact ih orderly anchored fault ran
    · simp only [resendFrom, if_neg inside] at ran
      cases ran

/-- A receipt follows its record to a message that exists, with a row of its own. -/
theorem receipt_returns {messageId : Nat} (proper : messageId ≠ 0) (friendNumber : Nat)
    (orderly : Orderly w ⟨s, none, none⟩) (owned : Owned ⟨s, none, none⟩)
    (stored : Stored ⟨s, none, none⟩) (anchored : Anchored ⟨s, none, none⟩) :
    ∃ s', step w (.receipt friendNumber messageId) s = .ok s' := by
  suffices returns : ∃ r, tryProcessReceipt w s messageId = .ok r by
    obtain ⟨⟨s₁, processed⟩, ran⟩ := returns
    cases processed with
    | true => exact ⟨_, bind_ok.mpr ⟨_, ran, rfl⟩⟩
    | false => exact ⟨_, bind_ok.mpr ⟨_, ran, rfl⟩⟩
  by_cases known : ∃ j, s.receipts.findReceipt messageId = some j ∧ s.receipts.key j = messageId
  · obtain ⟨j, lookup, held⟩ := known
    have live : s.receipts.key j ≠ 0 := held ▸ proper
    obtain ⟨m, found⟩ := anchored j ⟨live, nofun⟩
    obtain ⟨db, confirmed, _⟩ := stored.confirmed owned orderly live found
    have here : (confirmedState s j m db).heap (s.receipts.receipts j).msg =
        some (partConfirmed m (s.receipts.receipts j).partNo) := Function.update_self ..
    obtain ⟨s₁, went⟩ : ∃ s₁, proceed w (confirmedState s j m db) (s.receipts.receipts j).msg
        (partConfirmed m (s.receipts.receipts j).partNo) = .ok s₁ := by
      unfold proceed
      split
      · exact serve_returns ⟨_, here⟩
      · exact ⟨_, bind_ok.mpr ⟨_, msgAt_ok.mpr here, rfl⟩⟩
    rw [tryProcessReceipt_found lookup held]
    exact ⟨_, bind_ok.mpr ⟨m, msgAt_ok.mpr found, bind_ok.mpr ⟨db, confirmed,
      bind_ok.mpr ⟨s₁, went, rfl⟩⟩⟩⟩
  · have missing : NotFound s.receipts messageId := fun j lookup held => known ⟨j, lookup, held⟩
    exact ⟨_, tryProcessReceipt_missing missing⟩

/-- A periodic pass ends, or goes on expiring what it sends. -/
theorem periodic_returns (increasing : Increasing w) (orderly : Orderly w ⟨s, none, none⟩)
    (anchored : Anchored ⟨s, none, none⟩) :
    ∀ fault, step w .periodic s = .error fault → fault = .diverges := by
  intro fault ran
  change (resendExpiredReceipts w s >>= sendMore w) = .error fault at ran
  cases resent : resendExpiredReceipts w s with
  | error fault' =>
    rw [resent] at ran
    cases ran
    unfold resendExpiredReceipts at resent
    split at resent
    · cases resent
    · have tick : Move w .outside ⟨s, none, none⟩ ⟨{ s with ticks := s.ticks + 1 }, none, none⟩ :=
        .idle (Nat.le_succ s.ticks)
      have ticked : Anchored ⟨{ s with ticks := s.ticks + 1 }, none, none⟩ := anchored.frame rfl rfl
      exact resendFrom_returns increasing (orderly.move increasing tick) ticked _ resent
  | ok s₁ =>
    rw [resent] at ran
    have linked : Linked ⟨s₁, none, none⟩ :=
      (orderly.chain increasing (resendExpiredReceipts_expires resent).chain).linked
    obtain ⟨s', served⟩ := sendMore_returns (w := w) linked.held
    change s₁.msgsOutbound.foldlM (serve w) s₁ = _ at ran
    rw [served] at ran
    cases ran

/-! ## Runs -/

/-- The record's message exists, and so does the row of the message. -/
def Grounded (s : State) (r : ReceiptRecord) : Prop :=
  ∃ m ∈ s.heap r.msg, (s.db.fragmentedData.lookup (outboundKey m.friendNumber m.id)).isSome

instance {s : State} {r : ReceiptRecord} : Decidable (Grounded s r) :=
  inferInstanceAs (Decidable (∃ m ∈ s.heap r.msg, _))

/-- What holds between the calls of a run whose cursors lead where they are used. -/
structure Settled (w : World) (s : State) : Prop where
  orderly : Orderly w ⟨s, none, none⟩
  owned : Owned ⟨s, none, none⟩
  stored : Stored ⟨s, none, none⟩
  windowed : Windowed w ⟨s, none, none⟩
  anchored : Anchored ⟨s, none, none⟩

theorem settled_initial : Settled w (initialState w) := by
  refine ⟨.initial, ⟨fun k m live => absurd rfl live.1, fun a m found => ?_⟩, .initial, fun a m found => ?_,
    fun k live => absurd rfl live.1⟩
  all_goals cases found

theorem Settled.step {op : Op} (settled : Settled w s) (increasing : Increasing w)
    (small : w.params.fragmentsAtATime < 2 ^ 32) (leading : Leading w s op)
    (ran : step w op s = .ok s') : Settled w s' := by
  have tidy := tidy_step increasing settled.orderly settled.owned leading ran
  obtain ⟨stored, windowed, anchored⟩ :
      Stored ⟨s', none, none⟩ ∧ Windowed w ⟨s', none, none⟩ ∧ Anchored ⟨s', none, none⟩ := by
    refine tidy.invariant (I := fun v => Stored v ∧ Windowed w v ∧ Anchored v) ?_
      ⟨settled.stored, settled.windowed, settled.anchored⟩
    rintro label v v' orderly owned move ⟨stored, windowed, anchored⟩
    exact ⟨stored.move orderly owned move, windowed.move small orderly increasing move,
      anchored.move windowed orderly owned increasing move⟩
  exact ⟨tidy.orderly, tidy.owned, stored, windowed, anchored⟩

theorem settled_of_leading {ops : List Op} (increasing : Increasing w)
    (small : w.params.fragmentsAtATime < 2 ^ 32)
    (run : Run (step w) (Leading w) (Started w) ops s) : Settled w s := by
  refine run.invariant (I := Settled w) (fun s started => ?_) fun _ _ _ before leading ran =>
    before.step increasing small leading ran
  rw [started_iff.mp started]
  exact settled_initial

/-- `fragmentsAtATime` is an `unsigned`. In every run whose cursors lead where
they are used, every record is good, whatever receipt comes next is processed,
and a periodic pass follows no record to a message that is gone. -/
theorem records_grounded {ops : List Op} (increasing : Increasing w)
    (small : w.params.fragmentsAtATime < 2 ^ 32)
    (run : Run (step w) (Leading w) (Started w) ops s) :
    (∀ k, s.receipts.key k ≠ 0 → Grounded s (s.receipts.receipts k)) ∧
    (∀ friendNumber messageId, messageId ≠ 0 →
      ∃ s', step w (.receipt friendNumber messageId) s = .ok s') ∧
    ∀ fault, step w .periodic s = .error fault → fault = .diverges := by
  obtain ⟨orderly, owned, stored, _, anchored⟩ := settled_of_leading increasing small run
  refine ⟨fun k held => ?_, fun friendNumber messageId proper =>
    receipt_returns proper friendNumber orderly owned stored anchored,
    periodic_returns increasing orderly anchored⟩
  obtain ⟨m, found⟩ := anchored k ⟨held, nofun⟩
  obtain ⟨row, data, _, here, _⟩ := (stored.recorded _ m found).resolve_left (by simp)
  have lookup : s.db.fragmentedData.lookup (outboundKey m.friendNumber m.id) = some data :=
    congrArg Rows.dataRow here
  exact ⟨m, found, by rw [lookup]; rfl⟩

/-- The receipt of the first part comes in before the second goes out. -/
theorem records_grounded_of_second_try : ∃ s,
    Run (step (secondRejected [5, 0, 6])) (Leading (secondRejected [5, 0, 6]))
      (Started (secondRejected [5, 0, 6]))
      [.receipt 1 5, .periodic, .send 1 0 (List.replicate 65 1) fun _ => 0] s ∧
    s.receipts.key 1 = 6 ∧ Grounded s (s.receipts.receipts 1) := by
  obtain ⟨s, run, checked⟩ := exists_run (step (secondRejected [5, 0, 6]))
    (Leading (secondRejected [5, 0, 6]))
    [.send 1 0 (List.replicate 65 1) fun _ => 0, .periodic, .receipt 1 5]
    (fun s => s.receipts.key 1 = 6) (started_initialState (secondRejected [5, 0, 6]))
    (by decide +kernel)
  have held := of_decide_eq_true checked
  refine ⟨s, run, held, (records_grounded (increasing_scripted (by decide)) (by decide) run).1 1 ?_⟩
  rw [held]
  decide

/-- The second part has two records; its message is complete, and deleted, with
the receipts of the first part and of one of them. -/
theorem record_outlives_message : ∃ s,
    Increasing (secondRejected [5, 0, 0, 6, 7]) ∧
    Run (step (secondRejected [5, 0, 0, 6, 7])) (fun _ op => Proper op)
      (Started (secondRejected [5, 0, 0, 6, 7]))
      [.receipt 1 6, .receipt 1 5, .periodic, .periodic, .send 1 0 (List.replicate 65 1) fun _ => 0] s ∧
    s.receipts.key 2 = 7 ∧ ¬ Grounded s (s.receipts.receipts 2) ∧
    step (secondRejected [5, 0, 0, 6, 7]) (.receipt 1 7) s = .error .useAfterFree := by
  obtain ⟨s, run, checked⟩ := exists_run (step (secondRejected [5, 0, 0, 6, 7]))
    (fun _ op => Proper op)
    [.send 1 0 (List.replicate 65 1) fun _ => 0, .periodic, .periodic, .receipt 1 5, .receipt 1 6]
    (fun s => s.receipts.key 2 = 7 ∧ ¬ Grounded s (s.receipts.receipts 2) ∧
      failure (step (secondRejected [5, 0, 0, 6, 7]) (.receipt 1 7) s) = some .useAfterFree)
    (started_initialState (secondRejected [5, 0, 0, 6, 7])) (by decide +kernel)
  obtain ⟨held, loose, failed⟩ := of_decide_eq_true checked
  exact ⟨s, increasing_scripted (by decide), run, held, loose, failure_eq failed⟩

end Defragmenter.Anchoring
