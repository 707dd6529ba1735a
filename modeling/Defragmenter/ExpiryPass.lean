import Defragmenter.Anchoring
import Defragmenter.Compaction
import Defragmenter.Restored

/-! One pass over the expired records. Its loop goes over a table that grows
under it, by the records of the parts it sends again. These are behind all that
the pass has found, and each expired record is handled once exactly if none of
them has expired when it is made. -/
namespace Defragmenter.ExpiryPass
open Database Split Receipts Sender Moves Provenance Tracking Anchoring ReceiptLedger Runs

/-- The slots of the records that have expired when the pass reads the clock. -/
def expiredIn (w : World) (s : State) : List Nat :=
  (List.range s.receipts.hi).filter fun j => expired w (w.clock s.ticks) (s.receipts.receipts j)

/-- The records that take the place of those in the given slots, one for each
part that the base library takes again. Its calls, and the readings of the
clock, are numbered from here on. -/
def renewals (w : World) (t : ReceiptTable) : List Nat → Nat → Nat → List ReceiptRecord
  | [], _, _ => []
  | j :: rest, call, tick =>
    if w.answer call = 0 then renewals w t rest (call + 1) tick
    else { t.receipts j with receipt := w.answer call, timestamp := w.clock tick } ::
      renewals w t rest (call + 1) (tick + 1)

/-- The records in these slots are handled once each, the clock being read from
`tick` on. -/
structure Handled (w : World) (slots : List Nat) (tick : Nat) (s s' : State) : Prop where
  /-- One attempt each, in their order. -/
  calls : s'.base.map BaseCall.part = s.base.map BaseCall.part ++
    slots.map fun j => some ((s.receipts.receipts j).msg, (s.receipts.receipts j).partNo)
  retired : ∀ j ∈ slots, s'.receipts.key j = 0
  unchanged : ∀ j < s.receipts.hi, j ∉ slots → s'.receipts.receipts j = s.receipts.receipts j
  lost : ∀ a m, s.heap a = some m → ∃ m', s'.heap a = some m' ∧
    m'.numLoss = m.numLoss + slots.countP fun j => (s.receipts.receipts j).msg = a
  /-- The new records are live, behind the others, and there are no more. -/
  renewed : ∀ n r, (renewals w s.receipts slots s.base.length tick)[n]? = some r →
    s'.receipts.receipts (s.receipts.hi + n) = r
  size : s'.receipts.hi = s.receipts.hi + (renewals w s.receipts slots s.base.length tick).length
  beyond : ∀ j, s'.receipts.hi ≤ j → s'.receipts.key j = 0
  count : s'.receipts.num + slots.length =
    s.receipts.num + (renewals w s.receipts slots s.base.length tick).length

/-- The pass returns, observed for enough rounds, and has handled every expired
record once. -/
def HandlesOnce (w : World) (s : State) : Prop :=
  ∃ rounds s', resendExpiredReceipts { w with rounds } s = .ok s' ∧
    Handled w (expiredIn w s) (s.ticks + 1) s s'

/-- No record that the pass makes has expired by the time it began. -/
def NoneBornExpired (w : World) (s : State) : Prop :=
  ∀ r ∈ renewals w s.receipts (expiredIn w s) s.base.length (s.ticks + 1),
    expired w (w.clock s.ticks) r = false

instance {w : World} {s : State} : Decidable (NoneBornExpired w s) :=
  inferInstanceAs (Decidable (∀ r ∈ _, _ = false))

/-- A process that was initialized over any stored rows. -/
def Begins (w : World) (s : State) : Prop := ∃ db, initializeBoth w { db } = .ok s

/-- What the loop relies on. -/
structure Passing (w : World) (s : State) : Prop where
  orderly : Orderly w ⟨s, none, none⟩
  anchored : Anchored ⟨s, none, none⟩
  booked : Booked w Above ⟨s, none, none⟩

variable {w : World} {s s₁ s' : State} {t t' : ReceiptTable} {slots rest : List Nat}
  {i j k call tick now fuel : Nat} {m : MsgOutbound}

/-! ## The new records -/

theorem renewals_congr (same : ∀ j ∈ slots, t'.receipts j = t.receipts j) :
    renewals w t' slots call tick = renewals w t slots call tick := by
  induction slots generalizing call tick with
  | nil => rfl
  | cons j rest ih =>
    have later := fun {call tick} => @ih call tick fun k member => same k (List.mem_cons_of_mem j member)
    simp only [renewals, same j List.mem_cons_self, later]

theorem renewals_append : renewals w t (slots ++ rest) call tick = renewals w t slots call tick ++
    renewals w t rest (call + slots.length) (tick + (renewals w t slots call tick).length) := by
  induction slots generalizing call tick with
  | nil => rfl
  | cons j slots ih =>
    rw [List.cons_append, renewals, renewals, List.length_cons]
    have next : call + 1 + slots.length = call + (slots.length + 1) := by omega
    split
    · rw [ih, next]
    · rw [ih, next, List.cons_append, List.length_cons, Nat.add_right_comm tick 1, Nat.add_assoc tick]

/-! ## One record -/

/-- The state once the record in slot `j` was handled. -/
def handledState (w : World) (s : State) (j : Nat) (m : MsgOutbound) : State :=
  let r := s.receipts.receipts j
  if w.answer s.base.length = 0 then refusedState (lostState s j r.msg m) r.msg (partLost m) (r.partNo - 1)
  else sentState w (lostState s j r.msg m) r.msg (partLost m) (r.partNo - 1)
    (partSent (partLost m) (r.partNo - 1) (w.answer s.base.length))

theorem resendFrom_handled (inside : i < s.receipts.hi) (late : expired w now (s.receipts.receipts i) = true)
    (found : s.heap (s.receipts.receipts i).msg = some m) :
    resendFrom w now (fuel + 1) i s = resendFrom w now fuel (i + 1) (handledState w s i m) := by
  rw [resendFrom_late inside late found, handledState]
  split <;> rfl

theorem handled_move (late : expired w now (s.receipts.receipts j) = true)
    (found : s.heap (s.receipts.receipts j).msg = some m) :
    Move w (.expiry now) ⟨s, none, none⟩ ⟨handledState w s j m, none, none⟩ := by
  have held : s.receipts.key j ≠ 0 := held_of_expired late
  unfold handledState
  dsimp only
  split
  · exact .lost held late found ‹_›
  · exact .resent held late found ‹_›

theorem Passing.handled (passing : Passing w s) (increasing : Increasing w)
    (late : expired w now (s.receipts.receipts j) = true)
    (found : s.heap (s.receipts.receipts j).msg = some m) : Passing w (handledState w s j m) where
  orderly := passing.orderly.move increasing (handled_move late found)
  anchored := passing.anchored.expiry passing.orderly increasing (handled_move late found)
  booked := passing.booked.move (admits_above increasing) (handled_move late found)

/-- While a record is live the count is not zero. -/
theorem Passing.count (passing : Passing w s) (held : s.receipts.key j ≠ 0) : 0 < s.receipts.num := by
  obtain ⟨ops, l, run, table, _⟩ := passing.booked
  have table : l.table = s.receipts := table
  obtain ⟨confirmed, count, _⟩ := Compaction.count_of_run run
  have intact := Compaction.intact_reached run
  rw [← table] at held ⊢
  have live : l.table.receipts j ∈ l.live := (intact.holds _).mpr ((holds_iff intact.ordered).mpr ⟨j, held, rfl⟩)
  have positive := List.length_pos_of_mem live
  omega

/-- A message loses the part of its own record, and the others lose none. -/
theorem loss_one {m₁ : MsgOutbound} {heap : Nat → Option MsgOutbound}
    (found : s.heap (s.receipts.receipts j).msg = some m) (loss : m₁.numLoss = m.numLoss + 1)
    (after : heap = Function.update s.heap (s.receipts.receipts j).msg (some m₁)) (a : Nat) (m₀ : MsgOutbound)
    (before : s.heap a = some m₀) : ∃ m', heap a = some m' ∧
      m'.numLoss = m₀.numLoss + [j].countP fun j => (s.receipts.receipts j).msg = a := by
  by_cases own : (s.receipts.receipts j).msg = a
  · subst own
    obtain rfl : m = m₀ := Option.some.inj (found.symm.trans before)
    refine ⟨m₁, by rw [after, Function.update_self], ?_⟩
    simp [loss]
  · refine ⟨m₀, ?_, by simp [own]⟩
    rw [after, Function.update_of_ne (Ne.symm own), before]

/-- One record, handled. -/
theorem handled_one (passing : Passing w s) (increasing : Increasing w)
    (late : expired w now (s.receipts.receipts j) = true)
    (found : s.heap (s.receipts.receipts j).msg = some m) :
    Handled w [j] s.ticks s (handledState w s j m) ∧ (handledState w s j m).ticks =
      s.ticks + (renewals w s.receipts [j] s.base.length s.ticks).length := by
  have held : s.receipts.key j ≠ 0 := held_of_expired late
  have issued : Issued w s := passing.orderly.issued
  have number := issued.part held found
  have counted := passing.count held
  have ordered : s.receipts.Ordered := passing.orderly.tabled.ordered
  have inside := (ordered.inside j held).2
  have partNo : (s.receipts.receipts j).partNo - 1 + 1 = (s.receipts.receipts j).partNo := by omega
  have kept : ∀ k, k ≠ j → (s.receipts.clear j).receipts k = s.receipts.receipts k :=
    fun k different => ReceiptTable.receipts_clear_ne different
  have beyond : ∀ k, s.receipts.hi ≤ k → (s.receipts.clear j).key k = 0 := by
    intro k le
    rw [ReceiptTable.key_clear, if_neg (by omega)]
    by_contra live
    have := (ordered.inside k live).2
    omega
  by_cases refused : w.answer s.base.length = 0
  · have after : handledState w s j m = refusedState (lostState s j (s.receipts.receipts j).msg m)
        (s.receipts.receipts j).msg (partLost m) ((s.receipts.receipts j).partNo - 1) := if_pos refused
    have none : renewals w s.receipts [j] s.base.length s.ticks = [] := by
      rw [renewals, if_pos refused, renewals]
    rw [after]
    refine ⟨⟨?_, ?_, ?_, loss_one found rfl rfl, ?_, ?_, beyond, ?_⟩, ?_⟩
    · simp [refusedState, lostState, partCall, partNo]
    · intro k member
      obtain rfl := List.mem_singleton.mp member
      exact (ReceiptTable.key_clear (t := s.receipts)).trans (if_pos rfl)
    · intro k _ other
      exact kept k fun same => other (List.mem_singleton.mpr same)
    · intro n r new
      rw [none] at new
      cases new
    · rw [none]
      rfl
    · rw [none]
      change s.receipts.num - 1 + 1 = s.receipts.num
      omega
    · rw [none]
      rfl
  · have after : handledState w s j m = sentState w (lostState s j (s.receipts.receipts j).msg m)
        (s.receipts.receipts j).msg (partLost m) ((s.receipts.receipts j).partNo - 1)
        (partSent (partLost m) ((s.receipts.receipts j).partNo - 1) (w.answer s.base.length)) := if_neg refused
    have one : renewals w s.receipts [j] s.base.length s.ticks =
        [{ s.receipts.receipts j with receipt := w.answer s.base.length, timestamp := w.clock s.ticks }] := by
      rw [renewals, if_neg refused, renewals]
    have above : ∀ k, (lostState s j (s.receipts.receipts j).msg m).receipts.key k <
        w.answer (lostState s j (s.receipts.receipts j).msg m).base.length :=
      above_of_increasing increasing (issued.lost j found) refused
    let after := sentState w (lostState s j (s.receipts.receipts j).msg m)
      (s.receipts.receipts j).msg (partLost m) ((s.receipts.receipts j).partNo - 1)
      (partSent (partLost m) ((s.receipts.receipts j).partNo - 1) (w.answer s.base.length))
    have same : handledState w s j m = after := if_neg refused
    have slots : ∀ k, after.receipts.receipts k = if k = s.receipts.hi then
        ⟨w.answer s.base.length, (s.receipts.receipts j).msg, (s.receipts.receipts j).partNo - 1 + 1,
          w.clock s.ticks⟩
        else (s.receipts.clear j).receipts k := fun k => sentState_receipts above
    have keys : ∀ k, after.receipts.key k =
        if k = s.receipts.hi then w.answer s.base.length else (s.receipts.clear j).key k :=
      fun k => sentState_key above
    have table := ReceiptTable.addReceipt_append (r := ⟨w.answer s.base.length, (s.receipts.receipts j).msg,
      (s.receipts.receipts j).partNo - 1 + 1, w.clock s.ticks⟩) above
    have size : after.receipts.hi = s.receipts.hi + 1 := congrArg ReceiptTable.hi table
    have num : after.receipts.num = s.receipts.num - 1 + 1 := congrArg ReceiptTable.num table
    rw [same]
    refine ⟨⟨?_, ?_, ?_, loss_one found rfl (Function.update_idem ..), ?_, ?_, ?_, ?_⟩, ?_⟩
    · simp [after, sentState, lostState, partCall, partNo]
    · intro k member
      obtain rfl := List.mem_singleton.mp member
      rw [keys, if_neg (by omega), ReceiptTable.key_clear, if_pos rfl]
    · intro k below other
      rw [slots, if_neg (by omega)]
      exact kept k fun same => other (List.mem_singleton.mpr same)
    · intro n r new
      rw [one, List.getElem?_singleton] at new
      split at new
      · rename_i first
        cases new
        rw [slots, if_pos (by omega), partNo]
      · cases new
    · rw [one, size, List.length_singleton]
    · intro k le
      rw [keys, if_neg (by omega)]
      exact beyond k (by omega)
    · rw [one, num, List.length_singleton, List.length_singleton]
      omega
    · rw [one]
      rfl

/-- Slots handled after others. -/
theorem Handled.append (first : Handled w slots tick s s₁)
    (later : Handled w rest (tick + (renewals w s.receipts slots s.base.length tick).length) s₁ s')
    (inside : ∀ j ∈ slots, j < s.receipts.hi) (insideRest : ∀ j ∈ rest, j < s.receipts.hi)
    (apart : ∀ j ∈ rest, j ∉ slots) : Handled w (slots ++ rest) tick s s' := by
  have kept : ∀ j ∈ rest, s₁.receipts.receipts j = s.receipts.receipts j :=
    fun j member => first.unchanged j (insideRest j member) (apart j member)
  have apart' : ∀ j ∈ slots, j ∉ rest := fun j member other => apart j other member
  have calls : s₁.base.length = s.base.length + slots.length := by
    have lengths := congrArg List.length first.calls
    simpa using lengths
  have all : renewals w s.receipts (slots ++ rest) s.base.length tick =
      renewals w s.receipts slots s.base.length tick ++ renewals w s₁.receipts rest s₁.base.length
        (tick + (renewals w s.receipts slots s.base.length tick).length) := by
    rw [renewals_append, calls, renewals_congr kept]
  have grown : s.receipts.hi ≤ s₁.receipts.hi := by
    rw [first.size]
    exact Nat.le_add_right _ _
  constructor
  · rw [later.calls, first.calls, List.append_assoc, List.map_append]
    congr 2
    exact List.map_congr_left fun j member => by rw [kept j member]
  · intro j member
    rcases List.mem_append.mp member with early | late
    · rw [ReceiptTable.key, later.unchanged j (Nat.lt_of_lt_of_le (inside j early) grown) (apart' j early)]
      exact first.retired j early
    · exact later.retired j late
  · intro j below other
    obtain ⟨notEarly, notLate⟩ := not_or.mp fun either => other (List.mem_append.mpr either)
    rw [later.unchanged j (Nat.lt_of_lt_of_le below grown) notLate, first.unchanged j below notEarly]
  · intro a m before
    obtain ⟨m₁, between, once⟩ := first.lost a m before
    obtain ⟨m', after, more⟩ := later.lost a m₁ between
    refine ⟨m', after, ?_⟩
    rw [more, once, List.countP_append, Nat.add_assoc]
    congr 2
    exact List.countP_congr fun j member => by rw [kept j member]
  · intro n r new
    rw [all] at new
    rcases Nat.lt_or_ge n (renewals w s.receipts slots s.base.length tick).length with early | late
    · rw [List.getElem?_append_left early] at new
      rw [later.unchanged _ (by rw [first.size]; omega), first.renewed n r new]
      intro member
      have := insideRest _ member
      omega
    · rw [List.getElem?_append_right late] at new
      have here := later.renewed _ r new
      rw [first.size] at here
      rw [← here]
      congr 1
      omega
  · rw [later.size, first.size, all, List.length_append, Nat.add_assoc]
  · exact later.beyond
  · have once := first.count
    have more := later.count
    rw [all, List.length_append, List.length_append]
    omega

/-- Nothing to do. -/
theorem handled_nil (ordered : s.receipts.Ordered) : Handled w [] tick s s where
  calls := (List.append_nil _).symm
  retired := nofun
  unchanged _ _ _ := rfl
  lost a m here := ⟨m, here, rfl⟩
  renewed := nofun
  size := rfl
  beyond j le := by
    by_contra live
    have := (ordered.inside j live).2
    omega
  count := rfl

/-! ## The loop -/

/-- The expired records from slot `i` on. -/
def expiredFrom (w : World) (now : Nat) (t : ReceiptTable) (i : Nat) : List Nat :=
  (List.range' i (t.hi - i)).filter fun j => expired w now (t.receipts j)

theorem mem_expiredFrom : j ∈ expiredFrom w now t i ↔
    i ≤ j ∧ j < t.hi ∧ expired w now (t.receipts j) = true := by
  simp only [expiredFrom, List.mem_filter, List.mem_range'_1]
  constructor
  · rintro ⟨⟨from_, before⟩, late⟩
    exact ⟨from_, by omega, late⟩
  · rintro ⟨from_, before, late⟩
    exact ⟨⟨from_, by omega⟩, late⟩

theorem expiredFrom_of_lt (inside : i < t.hi) : expiredFrom w now t i =
    if expired w now (t.receipts i) then i :: expiredFrom w now t (i + 1) else expiredFrom w now t (i + 1) := by
  have room : t.hi - i = t.hi - (i + 1) + 1 := by omega
  rw [expiredFrom, room, List.range'_succ, List.filter_cons]
  rfl

theorem expiredFrom_end (past : t.hi ≤ i) : expiredFrom w now t i = [] := by
  rw [expiredFrom, Nat.sub_eq_zero_of_le past]
  rfl

theorem Handled.kept (first : Handled w [i] tick s s₁) (before : j < s.receipts.hi) (other : j ≠ i) :
    s₁.receipts.receipts j = s.receipts.receipts j :=
  first.unchanged j before fun own => other (List.mem_singleton.mp own)

/-- What is left to do has not grown, if the new record has not expired. -/
theorem expiredFrom_handled (first : Handled w [i] tick s s₁)
    (unexpired : ∀ r ∈ renewals w s.receipts [i] s.base.length tick, expired w now r = false)
    (inside : i < s.receipts.hi) :
    expiredFrom w now s₁.receipts (i + 1) = expiredFrom w now s.receipts (i + 1) := by
  have size := first.size
  have split : List.range' (i + 1) (s₁.receipts.hi - (i + 1)) =
      List.range' (i + 1) (s.receipts.hi - (i + 1)) ++
        List.range' s.receipts.hi (renewals w s.receipts [i] s.base.length tick).length := by
    have next : i + 1 + 1 * (s.receipts.hi - (i + 1)) = s.receipts.hi := by omega
    have joined := @List.range'_append (i + 1) (s.receipts.hi - (i + 1))
      (renewals w s.receipts [i] s.base.length tick).length 1
    rw [next] at joined
    rw [joined]
    congr 1
    omega
  have none : (List.range' s.receipts.hi (renewals w s.receipts [i] s.base.length tick).length).filter
      (fun j => expired w now (s₁.receipts.receipts j)) = [] := by
    refine List.filter_eq_nil_iff.mpr fun j member => ?_
    obtain ⟨from_, before⟩ := List.mem_range'_1.mp member
    have new : j - s.receipts.hi < (renewals w s.receipts [i] s.base.length tick).length := by omega
    have here := first.renewed _ _ (List.getElem?_eq_getElem new)
    rw [Nat.add_sub_cancel' from_] at here
    rw [here, unexpired _ (List.getElem_mem new)]
    exact Bool.false_ne_true
  rw [expiredFrom, expiredFrom, split, List.filter_append, none, List.append_nil]
  refine List.filter_congr fun j member => ?_
  obtain ⟨from_, before⟩ := List.mem_range'_1.mp member
  rw [first.kept (by omega) (by omega)]

/-- The rest of the records are made anew as they would have been without the first. -/
theorem renewals_handled (passing : Passing w s) (increasing : Increasing w)
    (late : expired w now (s.receipts.receipts i) = true) (found : s.heap (s.receipts.receipts i).msg = some m) :
    renewals w (handledState w s i m).receipts (expiredFrom w now s.receipts (i + 1))
        (handledState w s i m).base.length (handledState w s i m).ticks =
      renewals w s.receipts (expiredFrom w now s.receipts (i + 1)) (s.base.length + 1)
        (s.ticks + (renewals w s.receipts [i] s.base.length s.ticks).length) := by
  obtain ⟨first, ticks⟩ := handled_one passing increasing late found
  have calls : (handledState w s i m).base.length = s.base.length + 1 := by
    have lengths := congrArg List.length first.calls
    simpa using lengths
  have kept : ∀ j ∈ expiredFrom w now s.receipts (i + 1),
      (handledState w s i m).receipts.receipts j = s.receipts.receipts j := by
    intro j member
    obtain ⟨from_, before, _⟩ := mem_expiredFrom.mp member
    exact first.kept before (by omega)
  rw [calls, ticks, renewals_congr kept]

/-- An expired record has its message. -/
theorem Passing.message (passing : Passing w s) (late : expired w now (s.receipts.receipts i) = true) :
    ∃ m, s.heap (s.receipts.receipts i).msg = some m :=
  passing.anchored i ⟨held_of_expired late, by simp⟩

theorem resendFrom_passed (inside : i < s.receipts.hi)
    (unexpired : ¬ expired w now (s.receipts.receipts i) = true) :
    resendFrom w now (fuel + 1) i s = resendFrom w now fuel (i + 1) s := by
  rw [resendFrom, if_pos inside]
  dsimp only
  rw [if_neg unexpired]

theorem resendFrom_ended (past : s.receipts.hi ≤ i) : resendFrom w now (fuel + 1) i s = .ok s := by
  rw [resendFrom, if_neg (Nat.not_lt.mpr past)]

/-- With rounds enough the loop ends and has handled what had expired. -/
theorem resendFrom_handles (increasing : Increasing w) : ∀ {fuel i : Nat} {s : State}, Passing w s →
    (∀ r ∈ renewals w s.receipts (expiredFrom w now s.receipts i) s.base.length s.ticks,
      expired w now r = false) →
    s.receipts.hi - i + (renewals w s.receipts (expiredFrom w now s.receipts i) s.base.length
      s.ticks).length < fuel →
    ∃ s', resendFrom w now fuel i s = .ok s' ∧ Handled w (expiredFrom w now s.receipts i) s.ticks s s' := by
  intro fuel
  induction fuel with
  | zero =>
    intro i s _ _ enough
    omega
  | succ fuel ih =>
    intro i s passing unexpired enough
    rcases Nat.lt_or_ge i s.receipts.hi with inside | past
    · have rest := @expiredFrom_of_lt w s.receipts i now inside
      by_cases late : expired w now (s.receipts.receipts i) = true
      · rw [if_pos late, ← List.singleton_append] at rest
        obtain ⟨m, found⟩ := passing.message late
        obtain ⟨first, ticks⟩ := handled_one passing increasing late found
        have all := @renewals_append w s.receipts [i] (expiredFrom w now s.receipts (i + 1)) s.base.length s.ticks
        rw [rest, all] at unexpired enough
        have same : expiredFrom w now (handledState w s i m).receipts (i + 1) =
            expiredFrom w now s.receipts (i + 1) :=
          expiredFrom_handled first (fun r member => unexpired r (List.mem_append_left _ member)) inside
        have later := renewals_handled passing increasing late found
        obtain ⟨s', ran, handled⟩ := @ih (i + 1) (handledState w s i m) (passing.handled increasing late found)
          (by
            rw [same, later]
            exact fun r member => unexpired r (List.mem_append_right _ member))
          (by
            rw [same, later, first.size]
            rw [List.length_append, List.length_singleton] at enough
            omega)
        refine ⟨s', (resendFrom_handled inside late found).trans ran, ?_⟩
        rw [rest]
        rw [same, ticks] at handled
        refine first.append handled (fun j member => ?_) (fun j member => (mem_expiredFrom.mp member).2.1)
          fun j member own => ?_
        · rw [List.mem_singleton.mp member]
          exact inside
        · have := (mem_expiredFrom.mp member).1
          have := List.mem_singleton.mp own
          omega
      · rw [if_neg late] at rest
        rw [rest] at unexpired enough ⊢
        obtain ⟨s', ran, handled⟩ := @ih (i + 1) s passing unexpired (by omega)
        exact ⟨s', (resendFrom_passed inside late).trans ran, handled⟩
    · refine ⟨s, resendFrom_ended past, ?_⟩
      rw [expiredFrom_end past]
      exact handled_nil passing.orderly.tabled.ordered

/-- A loop that has ended has come past every slot. -/
theorem resendFrom_leaves (increasing : Increasing w) : ∀ {fuel i : Nat} {s s' : State}, Passing w s →
    (∀ k < i, expired w now (s.receipts.receipts k) = false) → resendFrom w now fuel i s = .ok s' →
    ∀ k < s'.receipts.hi, expired w now (s'.receipts.receipts k) = false := by
  intro fuel
  induction fuel with
  | zero =>
    intro i s s' _ _ ran
    cases ran
  | succ fuel ih =>
    intro i s s' passing before ran
    rcases Nat.lt_or_ge i s.receipts.hi with inside | past
    · by_cases late : expired w now (s.receipts.receipts i) = true
      · obtain ⟨m, found⟩ := passing.message late
        obtain ⟨first, _⟩ := handled_one passing increasing late found
        rw [resendFrom_handled inside late found] at ran
        refine ih (passing.handled increasing late found) (fun k le => ?_) ran
        rcases Nat.lt_succ_iff_lt_or_eq.mp le with earlier | rfl
        · rw [first.kept (by omega) (by omega)]
          exact before k earlier
        · have retired : ((handledState w s k m).receipts.receipts k).receipt = 0 :=
            first.retired k (List.mem_singleton.mpr rfl)
          simp [expired, retired]
      · rw [resendFrom_passed inside late] at ran
        refine ih passing (fun k le => ?_) ran
        rcases Nat.lt_succ_iff_lt_or_eq.mp le with earlier | rfl
        · exact before k earlier
        · exact Bool.eq_false_of_not_eq_true late
    · rw [resendFrom_ended past] at ran
      cases ran
      exact fun k below => before k (by omega)

/-- The rounds only bound what is observed of the loop. -/
theorem resendFrom_rounds {rounds : Nat} : ∀ {fuel i : Nat} {s : State},
    resendFrom { w with rounds } now fuel i s = resendFrom w now fuel i s := by
  intro fuel
  induction fuel with
  | zero =>
    intro i s
    rfl
  | succ fuel ih =>
    intro i s
    simp only [resendFrom, ih]
    rfl

/-! ## The pass -/

theorem expiredIn_from (ordered : s.receipts.Ordered) :
    expiredIn w s = expiredFrom w (w.clock s.ticks) s.receipts s.receipts.lo := by
  have split : List.range s.receipts.hi = List.range' 0 s.receipts.lo ++
      List.range' s.receipts.lo (s.receipts.hi - s.receipts.lo) := by
    have joined := @List.range'_append 0 s.receipts.lo (s.receipts.hi - s.receipts.lo) 1
    rw [Nat.one_mul, Nat.zero_add, Nat.add_sub_cancel' ordered.ends] at joined
    rw [joined, List.range_eq_range']
  have none : (List.range' 0 s.receipts.lo).filter
      (fun j => expired w (w.clock s.ticks) (s.receipts.receipts j)) = [] := by
    refine List.filter_eq_nil_iff.mpr fun j member late => ?_
    have inside := (ordered.inside j (held_of_expired late)).1
    have := (List.mem_range'_1.mp member).2
    omega
  rw [expiredIn, split, List.filter_append, none, List.nil_append, expiredFrom]

theorem orderly_of_run {ops : List Op} (increasing : Increasing w)
    (run : Run (step w) (fun _ op => Proper op) (Begins w) ops s) : Orderly w ⟨s, none, none⟩ := by
  refine run.invariant (I := fun s => Orderly w ⟨s, none, none⟩) ?_ ?_
  · rintro s ⟨db, started⟩
    have loading := Restored.loading_started started
    refine ⟨loading.issued, loading.linked, ⟨?_, nofun⟩⟩
    change s.receipts.Ordered
    rw [loading.receipts]
    exact ReceiptTable.ordered_initialize
  · exact fun s op s' orderly proper ran => orderly.chain increasing (step_chain proper ran)

/-- In every run the loop can rely on its table. -/
theorem passing_of_run {ops : List Op} (increasing : Increasing w)
    (run : Run (step w) (fun _ op => Proper op) (Begins w) ops s) (anchored : Anchored ⟨s, none, none⟩) :
    Passing w s := by
  have empty : ∀ s, Begins w s → s.receipts = receiptsInitialize := by
    rintro s ⟨db, started⟩
    exact (Restored.loading_started started).receipts
  exact ⟨orderly_of_run increasing run, anchored, booked_of_run (admits_above increasing) empty run⟩

theorem Passing.ticked (passing : Passing w s) (increasing : Increasing w) :
    Passing w { s with ticks := s.ticks + 1 } where
  orderly := passing.orderly.move increasing (.idle (Nat.le_succ s.ticks))
  anchored := passing.anchored.frame rfl rfl
  booked := passing.booked.frame rfl (Nat.le_refl _)

/-- Without a count nothing is live. -/
theorem Passing.none_expired (passing : Passing w s) (uncounted : s.receipts.num = 0) : expiredIn w s = [] := by
  refine List.filter_eq_nil_iff.mpr fun j _ late => ?_
  have counted := passing.count (held_of_expired late)
  omega

theorem handlesOnce_of_none (passing : Passing w s) (increasing : Increasing w) (none : NoneBornExpired w s) :
    HandlesOnce w s := by
  have ordered : s.receipts.Ordered := passing.orderly.tabled.ordered
  by_cases uncounted : s.receipts.num = 0
  · refine ⟨0, s, if_pos uncounted, ?_⟩
    rw [passing.none_expired uncounted]
    exact handled_nil ordered
  · unfold NoneBornExpired at none
    rw [expiredIn_from ordered] at none
    obtain ⟨s', ran, handled⟩ := resendFrom_handles increasing (passing.ticked increasing) none
      (Nat.lt_succ_self _)
    refine ⟨(renewals w s.receipts (expiredFrom w (w.clock s.ticks) s.receipts s.receipts.lo) s.base.length
      (s.ticks + 1)).length, s', ?_, ?_⟩
    · rw [resendExpiredReceipts, if_neg uncounted]
      exact resendFrom_rounds.trans ran
    · rw [expiredIn_from ordered]
      exact ⟨handled.calls, handled.retired, handled.unchanged, handled.lost, handled.renewed, handled.size,
        handled.beyond, handled.count⟩

theorem none_of_handlesOnce (passing : Passing w s) (increasing : Increasing w) (once : HandlesOnce w s) :
    NoneBornExpired w s := by
  have ordered : s.receipts.Ordered := passing.orderly.tabled.ordered
  obtain ⟨rounds, s', ran, handled⟩ := once
  intro r member
  by_cases uncounted : s.receipts.num = 0
  · rw [passing.none_expired uncounted] at member
    cases member
  · rw [resendExpiredReceipts, if_neg uncounted] at ran
    have ended := resendFrom_rounds.symm.trans ran
    obtain ⟨n, new⟩ := List.getElem?_of_mem member
    have here := handled.renewed n r new
    have inside : s.receipts.hi + n < s'.receipts.hi := by
      rw [handled.size]
      have := (List.getElem?_eq_some_iff.mp new).1
      omega
    rw [← here]
    refine resendFrom_leaves increasing (passing.ticked increasing) (fun k before => ?_) ended _ inside
    refine Bool.eq_false_of_not_eq_true fun late => ?_
    have := (ordered.inside k (held_of_expired late)).1
    have before : k < s.receipts.lo := before
    omega

/-- In every run an expiry pass handles each expired record once exactly if no
record that it makes has expired by the time it began. -/
theorem handles_once_iff {ops : List Op} (increasing : Increasing w)
    (run : Run (step w) (fun _ op => Proper op) (Begins w) ops s) (anchored : Anchored ⟨s, none, none⟩) :
    HandlesOnce w s ↔ NoneBornExpired w s := by
  have passing := passing_of_run increasing run anchored
  exact ⟨none_of_handlesOnce passing increasing, handlesOnce_of_none passing increasing⟩

/-- Between the ends of the table it can be checked that every message exists. -/
theorem anchored_of_ends {ops : List Op} (increasing : Increasing w)
    (run : Run (step w) (fun _ op => Proper op) (Begins w) ops s)
    (all : ∀ k < s.receipts.hi, (s.heap (s.receipts.receipts k).msg).isSome = true) :
    Anchored ⟨s, none, none⟩ := by
  intro k live
  have inside := (orderly_of_run increasing run).tabled.ordered.inside k live.1
  exact Option.isSome_iff_exists.mp (all k inside.2)

/-- Two parts go out at the second time, and a pass comes at the last. -/
def twoParts (times : List Nat) : World := scripted { maxMessageLength := 64 } [5, 6, 7, 8] times

/-- A message of two parts was sent. -/
def sentBoth : Op := .send 1 0 (List.replicate 65 1) fun _ => 0

/-- After twenty seconds both are sent again. -/
theorem both_handled_once :
    ∃ s, Run (step (twoParts [1000000000000, 1000000000000, 1000000000000, 1000000020001]))
      (fun _ op => Proper op) (Begins (twoParts [1000000000000, 1000000000000, 1000000000000, 1000000020001]))
      [sentBoth] s ∧
    expiredIn (twoParts [1000000000000, 1000000000000, 1000000000000, 1000000020001]) s = [0, 1] ∧
    HandlesOnce (twoParts [1000000000000, 1000000000000, 1000000000000, 1000000020001]) s := by
  let w := twoParts [1000000000000, 1000000000000, 1000000000000, 1000000020001]
  have begins : Begins w (initialState w) := ⟨{}, started_initialState w⟩
  have increasing : Increasing w := increasing_scripted (by decide)
  obtain ⟨s, run, checked⟩ := exists_run (step w) (fun _ op => Proper op) [sentBoth]
    (fun s => (∀ k < s.receipts.hi, (s.heap (s.receipts.receipts k).msg).isSome = true) ∧
      expiredIn w s = [0, 1] ∧ NoneBornExpired w s) begins (by decide +kernel)
  obtain ⟨all, slots, none⟩ := of_decide_eq_true checked
  exact ⟨s, run, slots, (handles_once_iff increasing run (anchored_of_ends increasing run all)).mpr none⟩

/-- The clock is set half a minute before the epoch behind the reading for the id.
Both parts are sent again, and the records that this makes have expired at once:
the pass sends the parts a second time. -/
theorem handled_again : ∃ w s, Increasing w ∧ (∀ n, w.clock n ≤ w.clock (n + 1)) ∧
    Run (step w) (fun _ op => Proper op) (Begins w) [sentBoth] s ∧ Anchored ⟨s, none, none⟩ ∧
    ¬ HandlesOnce w s := by
  let w := twoParts [1000000000000, 2 ^ 64 - 30000, 2 ^ 64 - 30000, 2 ^ 64 - 5000]
  have begins : Begins w (initialState w) := ⟨{}, started_initialState w⟩
  have increasing : Increasing w := increasing_scripted (by decide)
  obtain ⟨s, run, checked⟩ := exists_run (step w) (fun _ op => Proper op) [sentBoth]
    (fun s => (∀ k < s.receipts.hi, (s.heap (s.receipts.receipts k).msg).isSome = true) ∧
      ¬ NoneBornExpired w s) begins (by decide +kernel)
  obtain ⟨all, late⟩ := of_decide_eq_true checked
  have anchored := anchored_of_ends increasing run all
  refine ⟨w, s, increasing, fun n => ?_, run, anchored, fun once => ?_⟩
  · have still : ∀ k, 3 ≤ k → w.clock k = 2 ^ 64 - 5000 := by
      intro k after
      rcases Nat.eq_or_lt_of_le after with rfl | beyond
      · rfl
      · change List.getD _ k _ = _
        rw [List.getD_eq_getElem?_getD, List.getElem?_eq_none beyond]
        rfl
    have early : ∀ k < 3, w.clock k ≤ w.clock (k + 1) := by decide
    rcases Nat.lt_or_ge n 3 with before | after
    · exact early n before
    · rw [still n after, still (n + 1) (Nat.le_succ_of_le after)]
  · exact late (none_of_handlesOnce (passing_of_run increasing run anchored) increasing once)

end Defragmenter.ExpiryPass
