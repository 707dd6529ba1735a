import Defragmenter.FullWindow

/-! A receipt that came too late twice. An expired record leaves a hole behind
and goes to the end of the table. When it is the only one, and the table has
three slots or more, the search does not come to the last of them: no receipt
is found any more, and all that the passes do is send the part again. -/
namespace Defragmenter.Unheard
open SparseSearch Database Split Receipts Sender Moves Provenance Tracking Accounting Window
open Bookkeeping Anchoring ClientView Completion FullWindow Runs

/-- One record is left, behind two holes or more. -/
structure Lone (t : ReceiptTable) : Prop where
  wide : t.lo + 3 ≤ t.hi
  last : ∀ k, t.key k ≠ 0 ↔ k + 1 = t.hi

/-- The record that is waited for. -/
def lastRecord (s : State) : ReceiptRecord := s.receipts.receipts (s.receipts.hi - 1)

/-- No further long message is sent. -/
def NothingNew (w : World) : Op → Prop
  | .send _ _ message _ => message.length ≤ w.params.maxMessageLength
  | .receipt _ messageId => messageId ≠ 0
  | .periodic => True

/-- What was waited for in `s` is still waited for in `s'`. -/
structure StillWaits (s s' : State) : Prop where
  lone : Lone s'.receipts
  message : (lastRecord s').msg = (lastRecord s).msg
  partNo : (lastRecord s').partNo = (lastRecord s).partNo
  /-- The message is there, neither completed nor given up. The part is not
  confirmed, nor is any more of the others. -/
  kept : ∃ m m', s.heap (lastRecord s).msg = some m ∧ s'.heap (lastRecord s).msg = some m' ∧
    m'.numParts = m.numParts ∧ (∀ k, (part m' k).confirmed = (part m k).confirmed) ∧
    (part m' ((lastRecord s).partNo - 1)).confirmed = false
  listed : s'.msgsOutbound = s.msgsOutbound
  stored : s'.db = s.db
  /-- The client hears of no message. -/
  events : ∀ e ∈ s'.events, e ∈ s.events ∨ ∃ friendNumber n, e = .passed friendNumber n
  /-- All that is sent of long messages is the one part. -/
  resent : ∀ i a p, s.base.length ≤ i → CallFor s' i a p →
    a = (lastRecord s).msg ∧ p = (lastRecord s).partNo

variable {w : World} {s s' t : State} {table : ReceiptTable} {label : Label} {v v' : View} {j n : Nat}

/-! ## The table -/

theorem Lone.hidden (lone : Lone table) : Hidden table.key table.lo table.hi (table.hi - 1) := by
  have wide := lone.wide
  apply hidden_last wide
  intro k _ before
  by_contra held
  have last := (lone.last k).mp held
  omega

theorem lone_of_inside (ordered : table.Ordered) (wide : table.lo + 3 ≤ table.hi)
    (last : ∀ k < table.hi, table.key k ≠ 0 ↔ k + 1 = table.hi) : Lone table := by
  refine ⟨wide, fun k => ?_⟩
  by_cases inside : k < table.hi
  · exact last k inside
  · constructor
    · intro held
      exact absurd (ordered.inside k held).2 inside
    · omega

/-- No receipt finds a record. -/
theorem Lone.notFound (lone : Lone table) (ordered : table.Ordered) (proper : n ≠ 0) : NotFound table n := by
  rintro j lookup rfl
  obtain rfl : j = table.hi - 1 := by
    have last := (lone.last j).mp proper
    omega
  exact (ReceiptTable.findReceipt_iff ordered proper).mp lookup lone.hidden

/-- When the record has expired, no other is left. -/
theorem Lone.emptied (lone : Lone table) (held : table.key j ≠ 0) (k : Nat) : (table.clear j).key k = 0 := by
  have mine := (lone.last j).mp held
  rw [ReceiptTable.key_clear]
  by_contra live
  split at live
  · exact live rfl
  · have last := (lone.last k).mp live
    omega

/-- A record behind holes alone. -/
theorem lone_append {r : ReceiptRecord} (empty : ∀ k, table.key k = 0) (wide : table.lo + 2 ≤ table.hi)
    (some : r.receipt ≠ 0) : Lone (table.addReceipt r) ∧
      (table.addReceipt r).receipts ((table.addReceipt r).hi - 1) = r := by
  have above : ∀ k, table.key k < r.receipt := fun k => by
    rw [empty k]
    omega
  have appended := ReceiptTable.addReceipt_append above
  have hi : (table.addReceipt r).hi = table.hi + 1 := by rw [appended]
  have lo : (table.addReceipt r).lo = table.lo := by rw [appended]
  refine ⟨⟨by omega, fun k => ?_⟩, ?_⟩
  · rw [ReceiptTable.key_addReceipt above, hi]
    by_cases new : k = table.hi
    · simp [new, some]
    · simp [new, empty]
  · rw [hi, Nat.add_sub_cancel, ReceiptTable.receipts_append above, if_pos rfl]

/-! ## What can happen -/

theorem StillWaits.refl (anchored : Anchored ⟨s, none, none⟩) (owned : Owned ⟨s, none, none⟩)
    (lone : Lone s.receipts) : StillWaits s s where
  lone := lone
  message := rfl
  partNo := rfl
  kept := by
    have wide := lone.wide
    have held : s.receipts.key (s.receipts.hi - 1) ≠ 0 := (lone.last _).mpr (by omega)
    have live : Live ⟨s, none, none⟩ (s.receipts.hi - 1) := ⟨held, nofun⟩
    obtain ⟨m, found⟩ := anchored _ live
    exact ⟨m, m, found, found, rfl, fun _ => rfl, (owned.owns _ m live found).2⟩
  listed := rfl
  stored := rfl
  events _ member := .inl member
  resent i a p new called := absurd called.before (by omega)

/-- Calls for no part and callbacks for other receipts change nothing. -/
theorem StillWaits.frame (waits : StillWaits s t) (receipts : s'.receipts = t.receipts) (heap : s'.heap = t.heap)
    (listed : s'.msgsOutbound = t.msgsOutbound) (stored : s'.db = t.db)
    (events : ∀ e ∈ s'.events, e ∈ t.events ∨ ∃ friendNumber n, e = .passed friendNumber n)
    (calls : ∀ i a p, CallFor s' i a p → CallFor t i a p) : StillWaits s s' := by
  have same : lastRecord s' = lastRecord t := by rw [lastRecord, lastRecord, receipts]
  exact {
    lone := receipts ▸ waits.lone
    message := by rw [same, waits.message]
    partNo := by rw [same, waits.partNo]
    kept := by
      rw [heap]
      exact waits.kept
    listed := listed.trans waits.listed
    stored := stored.trans waits.stored
    events := fun e member => (events e member).elim (waits.events e) .inr
    resent := fun i a p new called => waits.resent i a p new (calls i a p called) }

/-- A message goes out that is no fragment. -/
theorem StillWaits.short {call : BaseCall} (waits : StillWaits s t) (none : call.part = none) :
    StillWaits s { t with base := t.base ++ [call] } := by
  refine waits.frame rfl rfl rfl rfl (fun _ => .inl) fun i a p called => ?_
  refine ((callFor_snoc rfl).mp called).resolve_right ?_
  rintro ⟨_, part⟩
  rw [none] at part
  cases part

theorem flags_resent {m : MsgOutbound} {i receipt : Nat} (inside : i < m.fragments.length) (k : Nat) :
    (part (partSent (partLost m) i receipt) k).confirmed = (part m k).confirmed :=
  flags_partSent (m := partLost m) inside k

/-- The part goes out again. -/
theorem StillWaits.expiry {now : Nat} (obliging : Obliging w) (orderly : Orderly w v)
    (waits : StillWaits s v.s) (move : Move w (.expiry now) v v') : StillWaits s v'.s := by
  cases move with
  | lost _ _ _ refused => exact absurd refused (obliging.taken _)
  | @resent t _ j m held _ found accepted =>
    have last := (waits.lone.last j).mp held
    have record : t.receipts.receipts j = lastRecord t :=
      congrArg t.receipts.receipts (Nat.eq_sub_of_add_eq last)
    have issued : Issued w t := orderly.issued
    have positive := (issued.part held found).1
    have place : (t.receipts.receipts j).partNo - 1 < m.fragments.length := issued.place held found
    have wide := waits.lone.wide
    obtain ⟨lone, new⟩ := @lone_append (lostState t j (t.receipts.receipts j).msg m).receipts
      ⟨w.answer t.base.length, (t.receipts.receipts j).msg, (t.receipts.receipts j).partNo - 1 + 1, w.clock t.ticks⟩
      (waits.lone.emptied held) (Nat.le_of_succ_le wide) accepted
    have own : (t.receipts.receipts j).msg = (lastRecord s).msg := by rw [record, waits.message]
    have number : (t.receipts.receipts j).partNo - 1 + 1 = (lastRecord s).partNo := by
      rw [← waits.partNo, ← record]
      omega
    refine ⟨lone, (congrArg ReceiptRecord.msg new).trans own, (congrArg ReceiptRecord.partNo new).trans number, ?_,
      waits.listed, waits.stored, waits.events, fun i a p later called => ?_⟩
    · obtain ⟨m₀, m₁, before, found₁, numParts, flags, unconfirmed⟩ := waits.kept
      rw [← own] at found₁
      cases found.symm.trans found₁
      refine ⟨m₀, partSent (partLost m) ((t.receipts.receipts j).partNo - 1) (w.answer t.base.length), before, ?_,
        numParts, fun k => (flags_resent place k).trans (flags k), (flags_resent place _).trans unconfirmed⟩
      rw [← own]
      exact Function.update_self ..
    · rcases callFor_sent.mp called with old | ⟨_, rfl, rfl⟩
      · exact waits.resent i a p later old
      · exact ⟨own, number⟩

theorem StillWaits.step {op : Op} (obliging : Obliging w) (steady : Steady w t) (waits : StillWaits s t)
    (nothingNew : NothingNew w op) (ran : step w op t = .ok s') : StillWaits s s' := by
  cases op with
  | send friendNumber type message beyond =>
    rcases send_cases ran with rfl | ⟨call, none, rfl⟩ | ⟨long, _⟩
    · exact waits
    · exact waits.short none
    · exact absurd long (Nat.not_lt_of_le nothingNew)
  | receipt friendNumber messageId =>
    have missing := waits.lone.notFound steady.orderly.tabled.ordered nothingNew
    rcases receipt_cases ran with ⟨_, _, rfl⟩ | ⟨_, _, rfl⟩ | processed
    · exact waits
    · refine waits.frame rfl rfl rfl rfl (fun e member => ?_) fun _ _ _ => id
      rcases List.mem_cons.mp member with rfl | before
      · exact .inr ⟨_, _, rfl⟩
      · exact .inl before
    · obtain ⟨j, _, lookup, held, _⟩ := processed.events
      exact absurd held (missing j lookup)
  | periodic =>
    obtain ⟨s₁, polls, expires, _, rfl⟩ := periodic_expires obliging steady.orderly steady.owned steady.windowed
      steady.paced ran
    -- the pass begins with a reading of the clock, and ends with one of the connections
    have expired : StillWaits s s₁ := by
      refine (expires.chain.invariant (I := fun v => Orderly w v ∧ StillWaits s v.s) ?_
        ⟨steady.orderly, waits⟩).2
      rintro label v v' admitted move ⟨orderly, waits⟩
      refine ⟨orderly.move obliging.increasing move, ?_⟩
      rcases admitted with rfl | ⟨now, rfl⟩
      · cases move with
        | idle => exact waits.frame rfl rfl rfl rfl (fun _ => .inl) fun _ _ _ => id
        | short none => exact waits.short none
      · exact waits.expiry obliging orderly move
    exact expired.frame rfl rfl rfl rfl (fun _ => .inl) fun _ _ _ => id

/-! ## Runs -/

theorem steady_of_run {ops : List Op} (obliging : Obliging w)
    (run : Run (step w) (fun _ op => Proper op) (Started w) ops s) : Steady w s := by
  apply run.invariant
  · intro s started
    rw [started_iff.mp started]
    exact steady_initial
  · intro s op s' steady proper ran
    exact steady.step obliging proper ran

/-- The base library takes every call and the friends are connected. Once the
only record is behind two holes or more, whatever receipts come in, that of the
record too, and however often it expires: its message is there with the part
unconfirmed, the list and the store stay as they are, and the client hears of no
message. -/
theorem waits_for_ever {ops more : List Op} (obliging : Obliging w)
    (run : Run (step w) (fun _ op => Proper op) (Started w) ops s) (lone : Lone s.receipts)
    (rest : Run (step w) (fun _ op => NothingNew w op) (· = s) more s') : StillWaits s s' := by
  have steady := steady_of_run obliging run
  have both : Steady w s' ∧ StillWaits s s' := by
    apply rest.invariant
    · rintro _ rfl
      exact ⟨steady, .refl steady.anchored steady.owned lone⟩
    · rintro t op s' ⟨steady, waits⟩ nothingNew ran
      have proper : Proper op := by
        cases op with
        | send | periodic => trivial
        | receipt => exact nothingNew
      exact ⟨steady.step obliging proper ran, waits.step obliging steady nothingNew ran⟩
  exact both.2

instance : DecidablePred (NothingNew w) := fun op =>
  match op with
  | .send _ _ message _ => inferInstanceAs (Decidable (message.length ≤ w.params.maxMessageLength))
  | .receipt _ messageId => inferInstanceAs (Decidable (messageId ≠ 0))
  | .periodic => .isTrue trivial

/-- Every pass finds the records expired that were there before. -/
def hasty : World :=
  { behindRange with
    params := { behindRange.params with receiptExpirationTimeMs := 0 }
    clock := fun n => 1000 + n }

/-- The second of two parts expires twice before its receipts come in. -/
theorem waits_for_ever_of_second_part : ∃ s s',
    Run (step hasty) (fun _ op => Proper op) (Started hasty)
      [.periodic, .periodic, .receipt 1 0x80000000, .send 1 0 (List.replicate 65 1) fun _ => 0] s ∧
    Run (step hasty) (fun _ op => NothingNew hasty op) (· = s)
      [.receipt 1 0x80000004, .periodic, .receipt 1 0x80000003, .receipt 1 0x80000002, .receipt 1 0x80000001] s' ∧
    s'.msgsOutbound = [0] ∧ StillWaits s s' := by
  obtain ⟨s, run, checked⟩ := exists_run (step hasty) (fun _ op => Proper op)
    [.send 1 0 (List.replicate 65 1) fun _ => 0, .receipt 1 0x80000000, .periodic, .periodic]
    (fun s => (s.receipts.lo + 3 ≤ s.receipts.hi ∧
        ∀ k < s.receipts.hi, s.receipts.key k ≠ 0 ↔ k + 1 = s.receipts.hi) ∧
      ∃ s' ∈ exec (step hasty) (fun _ op => NothingNew hasty op) [.receipt 1 0x80000001, .receipt 1 0x80000002,
        .receipt 1 0x80000003, .periodic, .receipt 1 0x80000004] s, s'.msgsOutbound = [0])
    (started_initialState hasty) (by decide +kernel)
  obtain ⟨⟨wide, last⟩, s', executed, listed⟩ := of_decide_eq_true checked
  obtain ⟨taken, larger, online, _⟩ := obliging_behindRange
  have obliging : Obliging hasty := ⟨taken, larger, online, by decide⟩
  have ordered : s.receipts.Ordered := (steady_of_run obliging run).orderly.tabled.ordered
  have begun : Run (step hasty) (fun _ op => NothingNew hasty op) (· = s) [] s := .nil rfl
  have rest := begun.exec executed
  rw [List.append_nil] at rest
  exact ⟨s, s', run, rest, listed, waits_for_ever obliging run (lone_of_inside ordered wide last) rest⟩

end Defragmenter.Unheard
