import Defragmenter.Tracking

/-! Who answers for an unconfirmed fragment. Either a live record does, or its
own `receipt` field is zero and the next pass over the failed parts picks it
up. An expired record is cleared before its part is sent again, so a resend the
base library rejects leaves the part to nobody; nothing else does. -/
namespace Defragmenter.Stranding
open Database Split Receipts Sender Moves Provenance Tracking Runs

/-- Every unconfirmed fragment has a live record or a zero `receipt` field. -/
def NoneStranded (s : State) : Prop :=
  ∀ a m i, s.heap a = some m → i < m.numParts → (part m i).confirmed = false →
    (part m i).receipt = 0 ∨ ∃ k, s.receipts.key k ≠ 0 ∧
      (s.receipts.receipts k).msg = a ∧ (s.receipts.receipts k).partNo = i + 1

/-- The slots whose records have expired by the time `now`. -/
def expiredSlots (w : World) (s : State) (now : Nat) : Finset Nat :=
  (Finset.range s.receipts.hi).filter fun k => expired w now (s.receipts.receipts k) = true

/-- A record stamped at that tick has already expired by the time `now`. -/
def bornLate (w : World) (now tick : Nat) : Prop :=
  (w.clock tick + w.params.receiptExpirationTimeMs) % 2 ^ 64 < now

instance {w : World} {now tick : Nat} : Decidable (bornLate w now tick) :=
  inferInstanceAs (Decidable (_ < _))

/-- Of the first resends of a pass, those that will have to be sent again in it. -/
def resentAgain (w : World) (s : State) (rounds : Nat) : Finset Nat :=
  (Finset.range rounds).filter fun n => bornLate w (w.clock s.ticks) (s.ticks + 1 + n)

/-- So many resends are enough for an expiry pass, and the base library accepts them all. -/
def Accepts (w : World) (s : State) (rounds : Nat) : Prop :=
  (expiredSlots w s (w.clock s.ticks)).card + (resentAgain w s rounds).card ≤ rounds ∧
    ∀ n < rounds, w.answer (s.base.length + n) ≠ 0

instance {w : World} {s : State} : DecidablePred (Accepts w s) := fun _ =>
  inferInstanceAs (Decidable (_ ∧ ∀ n < _, _))

/-- No resend of an expired part is rejected. -/
def ResendsAccepted (w : World) (s : State) : Op → Prop
  | .send .. => True
  | .receipt _ messageId => messageId ≠ 0
  | .periodic => ∃ rounds, Accepts w s rounds

/-- Every unconfirmed fragment that was sent, this one apart, has a live record. -/
def Covered (v : View) (gap : Option (Nat × Nat)) : Prop :=
  ∀ a m i, gap ≠ some (a, i) → v.s.heap a = some m → (part m i).receipt ≠ 0 →
    (part m i).confirmed = false →
      ∃ k, Live v k ∧ (v.s.receipts.receipts k).msg = a ∧ (v.s.receipts.receipts k).partNo = i + 1

variable {w : World} {v v' : View} {label : Label} {s s' : State} {taken taken' : Option Nat}
  {forming forming' : Option (Nat × List UInt8)} {msg i : Nat} {m m' : MsgOutbound}
  {gap : Option (Nat × Nat)}

theorem Covered.frame (covered : Covered ⟨s, taken, forming⟩ gap) (heap : s'.heap = s.heap)
    (receipts : s'.receipts = s.receipts) : Covered ⟨s', taken, forming'⟩ gap := by
  unfold Covered Live at *
  simp only [heap, receipts] at *
  exact covered

/-- Messages may vanish, and their fragments may stop being waited for. -/
theorem Covered.update (covered : Covered ⟨s, taken, forming⟩ gap)
    (heap : ∀ a m', s'.heap a = some m' → (∃ m, s.heap a = some m ∧ ∀ k, part m' k = part m k) ∨
      ∀ k, (part m' k).receipt = 0) (receipts : s'.receipts = s.receipts) :
    Covered ⟨s', taken, forming'⟩ gap := by
  intro a m' i filled here waits unconfirmed
  rcases heap a m' here with ⟨m, found, same⟩ | blank
  · rw [same] at waits unconfirmed
    unfold Live
    simp only [receipts]
    exact covered a m i filled found waits unconfirmed
  · exact absurd (blank i) waits

/-- A part goes out: it is covered now, and so is what was before. -/
theorem Covered.sent (covered : Covered ⟨s, taken, forming⟩ gap)
    (tabled : Tabled ⟨s, taken, forming⟩) (above : ∀ j, s.receipts.key j < w.answer s.base.length)
    (accepted : w.answer s.base.length ≠ 0) (found : s.heap msg = some m)
    (sent : PartSent m m' i (w.answer s.base.length)) (only : gap = none ∨ gap = some (msg, i)) :
    Covered ⟨sentState w s msg m i m', taken, forming⟩ none := by
  have kept : ∀ k, Live ⟨s, taken, forming⟩ k →
      Live ⟨sentState w s msg m i m', taken, forming⟩ k ∧
        (sentState w s msg m i m').receipts.receipts k = s.receipts.receipts k := by
    intro k live
    have different : k ≠ s.receipts.hi := fun same => tabled.not_live (same ▸ live)
    rw [sentState_receipts above, if_neg different]
    refine ⟨⟨?_, live.2⟩, rfl⟩
    change (sentState w s msg m i m').receipts.key k ≠ 0
    rw [sentState_key above, if_neg different]
    exact live.1
  intro a m₁ i₁ _ here waits unconfirmed
  by_cases own : a = msg ∧ i₁ = i
  · obtain ⟨rfl, rfl⟩ := own
    have untaken : taken ≠ some s.receipts.hi := fun same => by
      have held := tabled.taken _ same
      exact absurd (tabled.ordered.inside _ held).2 (Nat.lt_irrefl _)
    refine ⟨s.receipts.hi, ⟨?_, untaken⟩, ?_⟩
    · change (sentState w s a m i₁ m').receipts.key s.receipts.hi ≠ 0
      rw [sentState_key above, if_pos rfl]
      exact accepted
    · change ((sentState w s a m i₁ m').receipts.receipts s.receipts.hi).msg = a ∧
        ((sentState w s a m i₁ m').receipts.receipts s.receipts.hi).partNo = i₁ + 1
      rw [sentState_receipts above, if_pos rfl]
      exact ⟨rfl, rfl⟩
  · have filled : gap ≠ some (a, i₁) := by
      rcases only with rfl | rfl
      · exact nofun
      · intro same
        cases same
        exact own ⟨rfl, rfl⟩
    have before : ∃ m, s.heap a = some m ∧ part m i₁ = part m₁ i₁ := by
      obtain ⟨mine, same⟩ | ⟨_, here⟩ := heap_update_iff.mp here
      · cases same
        have different : i₁ ≠ i := fun same => own ⟨mine, same⟩
        refine ⟨m, mine ▸ found, ?_⟩
        rw [sent.part_eq, if_neg different]
      · exact ⟨m₁, here, rfl⟩
    obtain ⟨m₀, found₀, same⟩ := before
    rw [← same] at waits unconfirmed
    obtain ⟨k, live, mine, number⟩ := covered a m₀ i₁ filled found₀ waits unconfirmed
    obtain ⟨live', same'⟩ := kept k live
    refine ⟨k, live', ?_⟩
    change ((sentState w s msg m i m').receipts.receipts k).msg = a ∧
      ((sentState w s msg m i m').receipts.receipts k).partNo = i₁ + 1
    rw [same']
    exact ⟨mine, number⟩

/-- An expired record leaves exactly its own part uncovered. -/
theorem Covered.lost {j : Nat} (covered : Covered ⟨s, none, none⟩ none)
    (number : 0 < (s.receipts.receipts j).partNo)
    (found : s.heap (s.receipts.receipts j).msg = some m) :
    Covered ⟨lostState s j (s.receipts.receipts j).msg m, none, none⟩
      (some ((s.receipts.receipts j).msg, (s.receipts.receipts j).partNo - 1)) := by
  intro a m₁ i filled here waits unconfirmed
  have before : ∃ m, s.heap a = some m ∧ part m i = part m₁ i := by
    obtain ⟨mine, same⟩ | ⟨_, here⟩ := heap_update_iff.mp here
    · cases same
      exact ⟨m, mine ▸ found, rfl⟩
    · exact ⟨m₁, here, rfl⟩
  obtain ⟨m₀, found₀, same⟩ := before
  rw [← same] at waits unconfirmed
  obtain ⟨k, live, mine, number'⟩ := covered a m₀ i nofun found₀ waits unconfirmed
  have mine : (s.receipts.receipts k).msg = a := mine
  have number' : (s.receipts.receipts k).partNo = i + 1 := number'
  have different : k ≠ j := by
    rintro rfl
    refine filled ?_
    rw [mine, number', Nat.add_sub_cancel]
  have same' := ReceiptTable.receipts_clear_ne (t := s.receipts) different
  refine ⟨k, ⟨?_, by simp⟩, ?_⟩
  · change (s.receipts.clear j).key k ≠ 0
    rw [ReceiptTable.key_clear, if_neg different]
    exact live.1
  · change ((s.receipts.clear j).receipts k).msg = a ∧ ((s.receipts.clear j).receipts k).partNo = i + 1
    rw [same']
    exact ⟨mine, number'⟩

/-- Nothing but a rejected resend leaves a part uncovered. -/
theorem Covered.move (covered : Covered v none) (orderly : Orderly w v) (increasing : Increasing w)
    (resends : ∀ now, label = .expiry now → w.answer v.s.base.length ≠ 0)
    (move : Move w label v v') : Covered v' none := by
  cases move with
  | idle | short | passed | firstRefused | nextRefused | failedRefused => exact covered.frame rfl rfl
  | @begun s friendNumber message m _ split =>
    refine covered.update (fun a m' here => ?_) rfl
    obtain ⟨_, same⟩ | ⟨_, here⟩ := heap_update_iff.mp here
    · cases same
      exact .inr fun k => (blank_of_unsent (unsent_of_split split) k).1
    · exact .inl ⟨m', here, fun _ => rfl⟩
  | @opened s msg receipt type _ m _ found =>
    refine covered.update (fun a m' here => ?_) rfl
    obtain ⟨mine, same⟩ | ⟨_, here⟩ := heap_update_iff.mp here
    · cases same
      exact .inl ⟨m, mine ▸ found, fun _ => rfl⟩
    · exact .inl ⟨m', here, fun _ => rfl⟩
  | dropped =>
    refine covered.update (fun a m' here => ?_) rfl
    obtain ⟨_, none⟩ | ⟨_, here⟩ := heap_update_iff.mp here
    · cases none
    · exact .inl ⟨m', here, fun _ => rfl⟩
  | @firstSent s msg i message m found inside _ _ _ accepted =>
    have inside : i < m.fragments.length := (orderly.issued.shaped found).1 ▸ inside
    exact covered.sent orderly.tabled (orderly.above increasing accepted) accepted found
      (partSent_sentLast inside) (.inl rfl)
  | @nextSent s taken msg i m found inside _ _ accepted =>
    have inside : i < m.fragments.length := (orderly.issued.shaped found).1 ▸ inside
    exact covered.sent orderly.tabled (orderly.above increasing accepted) accepted found
      (partSent_sentLast inside) (.inl rfl)
  | @failedSent s taken msg i m found inside _ _ accepted =>
    have inside : i < m.fragments.length := (orderly.issued.shaped found).1 ▸ inside
    exact covered.sent orderly.tabled (orderly.above increasing accepted) accepted found
      (partSent_partSent inside) (.inl rfl)
  | lost _ _ _ refused => exact absurd refused (resends _ rfl)
  | @resent s now j m held _ found accepted =>
    have issued : Issued w s := orderly.issued
    have number := issued.part held found
    have inside : (s.receipts.receipts j).partNo - 1 < m.fragments.length :=
      issued.place held found
    exact (covered.lost number.1 found).sent (orderly.tabled.lost j (s.receipts.receipts j).msg m)
      (above_of_increasing increasing (issued.lost j found) accepted) accepted
      (Function.update_self ..) (partSent_partSent inside) (.inr rfl)
  | @confirmed s _ _ j m db nonzero _ held found =>
    have heldJ : s.receipts.key j ≠ 0 := held ▸ nonzero
    have number := orderly.issued.part heldJ found
    change 0 < (s.receipts.receipts j).partNo ∧ (s.receipts.receipts j).partNo ≤ _ at number
    have inside : (s.receipts.receipts j).partNo - 1 < m.fragments.length :=
      orderly.issued.place heldJ found
    intro a m₁ i _ here waits unconfirmed
    have before : ∃ m, s.heap a = some m ∧ part m i = part m₁ i ∧
        (a = (s.receipts.receipts j).msg → i ≠ (s.receipts.receipts j).partNo - 1) := by
      obtain ⟨mine, same⟩ | ⟨other, here⟩ := heap_update_iff.mp here
      · cases same
        have different : i ≠ (s.receipts.receipts j).partNo - 1 := by
          intro same
          rw [part_partConfirmed inside, if_pos same] at waits
          exact waits rfl
        refine ⟨m, mine ▸ found, ?_, fun _ => different⟩
        rw [part_partConfirmed inside, if_neg different]
      · exact ⟨m₁, here, rfl, fun same => absurd same other⟩
    obtain ⟨m₀, found₀, same, different⟩ := before
    rw [← same] at waits unconfirmed
    obtain ⟨k, live, mine, numberK⟩ := covered a m₀ i nofun found₀ waits unconfirmed
    change (s.receipts.receipts k).msg = a at mine
    change (s.receipts.receipts k).partNo = i + 1 at numberK
    have untaken : j ≠ k := by
      rintro rfl
      exact different mine.symm (by omega)
    exact ⟨k, ⟨live.1, fun taken => untaken (Option.some.inj taken)⟩, mine, numberK⟩
  | completed =>
    refine covered.update (fun a m' here => ?_) rfl
    obtain ⟨_, none⟩ | ⟨_, here⟩ := heap_update_iff.mp here
    · cases none
    · exact .inl ⟨m', here, fun _ => rfl⟩
  | @cleared s _ _ j =>
    intro a m i _ here waits unconfirmed
    obtain ⟨k, live, mine, number⟩ := covered a m i nofun here waits unconfirmed
    have different : k ≠ j := fun same => live.2 (congrArg some same.symm)
    have same : ((s.receipts.clear j).trim j).receipts k = s.receipts.receipts k := by
      rw [ReceiptTable.receipts_trim, ReceiptTable.receipts_clear_ne different]
    refine ⟨k, ⟨?_, by simp⟩, ?_⟩
    · change (((s.receipts.clear j).trim j).receipts k).receipt ≠ 0
      rw [same]
      exact live.1
    · change (((s.receipts.clear j).trim j).receipts k).msg = a ∧
        (((s.receipts.clear j).trim j).receipts k).partNo = i + 1
      rw [same]
      exact ⟨mine, number⟩

/-! ## The expiry pass -/

/-- One resend: its record is no longer among the expired ones, and the new one
is if it was born late. -/
theorem expiredSlots_resent {now j : Nat}
    (above : ∀ k, (lostState s j msg m).receipts.key k < w.answer s.base.length)
    (accepted : w.answer s.base.length ≠ 0) :
    (expiredSlots w (sentState w (lostState s j msg m) msg (partLost m) i m') now).card =
      ((expiredSlots w s now).erase j).card + if bornLate w now s.ticks then 1 else 0 := by
  have above' : ∀ k, (lostState s j msg m).receipts.key k <
      w.answer (lostState s j msg m).base.length := above
  have size : (sentState w (lostState s j msg m) msg (partLost m) i m').receipts.hi =
      s.receipts.hi + 1 :=
    congrArg ReceiptTable.hi (ReceiptTable.addReceipt_append
      (r := ⟨w.answer s.base.length, msg, i + 1, w.clock s.ticks⟩) above)
  have old : ∀ k ∈ Finset.range s.receipts.hi,
      (expired w now ((sentState w (lostState s j msg m) msg (partLost m) i m').receipts.receipts k)
        = true ↔ k ≠ j ∧ expired w now (s.receipts.receipts k) = true) := by
    intro k inside
    have different : k ≠ (lostState s j msg m).receipts.hi := Nat.ne_of_lt (Finset.mem_range.mp inside)
    rw [sentState_receipts above', if_neg different]
    change expired w now ((s.receipts.clear j).receipts k) = true ↔ _
    by_cases same : k = j
    · subst same
      simp [ReceiptTable.clear, expired]
    · rw [ReceiptTable.receipts_clear_ne same]
      exact (and_iff_right same).symm
  have new : expired w now ((sentState w (lostState s j msg m) msg (partLost m) i m').receipts.receipts
      s.receipts.hi) = true ↔ bornLate w now s.ticks := by
    have last : s.receipts.hi = (lostState s j msg m).receipts.hi := rfl
    rw [last, sentState_receipts above', if_pos rfl]
    have some : w.answer (lostState s j msg m).base.length ≠ 0 := accepted
    simp only [expired, some, ne_eq, not_false_eq_true, decide_true, Bool.true_and, decide_eq_true_eq]
    exact Iff.rfl
  have kept : (Finset.range s.receipts.hi).filter (fun k => expired w now
      ((sentState w (lostState s j msg m) msg (partLost m) i m').receipts.receipts k) = true) =
      (expiredSlots w s now).erase j := by
    ext k
    simp only [expiredSlots, Finset.mem_filter, Finset.mem_erase]
    constructor
    · rintro ⟨inside, late⟩
      exact ⟨((old k inside).mp late).1, inside, ((old k inside).mp late).2⟩
    · rintro ⟨different, inside, late⟩
      exact ⟨inside, (old k inside).mpr ⟨different, late⟩⟩
  rw [expiredSlots, size, Finset.range_add_one, Finset.filter_insert, kept]
  by_cases late : bornLate w now s.ticks
  · rw [if_pos (new.mpr late), if_pos late, Finset.card_insert_of_notMem]
    intro member
    have inside := Finset.mem_of_mem_erase member
    simp [expiredSlots] at inside
  · rw [if_neg fun here => late (new.mp here), if_neg late]
    rfl

/-- An expiry pass after `count` resends: they were all accepted, and what is
left to do is what the pass found and what it had to do again. -/
structure Underway (w : World) (start : State) (v : View) (count : Nat) : Prop where
  orderly : Orderly w v
  covered : Covered v none
  calls : v.s.base.length = start.base.length + count
  ticks : v.s.ticks = start.ticks + 1 + count
  left : (expiredSlots w v.s (w.clock start.ticks)).card + count =
    (expiredSlots w start (w.clock start.ticks)).card + (resentAgain w start count).card

theorem resentAgain_mono {start : State} {n rounds : Nat} (le : n ≤ rounds) :
    (resentAgain w start n).card ≤ (resentAgain w start rounds).card :=
  Finset.card_le_card (Finset.filter_subset_filter _ (Finset.range_subset_range.mpr le))

theorem resentAgain_succ {start : State} {n : Nat} : (resentAgain w start (n + 1)).card =
    (resentAgain w start n).card + if bornLate w (w.clock start.ticks) (start.ticks + 1 + n)
      then 1 else 0 := by
  rw [resentAgain, Finset.range_add_one, Finset.filter_insert]
  split
  · rw [Finset.card_insert_of_notMem (by simp)]
    rfl
  · rfl

/-- While something is left to do, less than the accepted number of resends was done. -/
theorem Underway.accepted {start : State} {count rounds j : Nat}
    (underway : Underway w start v count) (accepts : Accepts w start rounds)
    (held : v.s.receipts.key j ≠ 0)
    (late : expired w (w.clock start.ticks) (v.s.receipts.receipts j) = true)
    (upTo : count ≤ rounds) : count < rounds := by
  have member : j ∈ expiredSlots w v.s (w.clock start.ticks) := by
    have inside := underway.orderly.tabled.ordered.inside j held
    exact Finset.mem_filter.mpr ⟨Finset.mem_range.mpr inside.2, late⟩
  have positive := Finset.card_pos.mpr ⟨j, member⟩
  have left := underway.left
  have mono := @resentAgain_mono w start count rounds upTo
  have enough := accepts.1
  refine Nat.lt_of_le_of_ne upTo fun same => ?_
  subst same
  omega

theorem Underway.move {start : State} {count rounds : Nat} (increasing : Increasing w)
    (accepts : Accepts w start rounds) (upTo : count ≤ rounds) (underway : Underway w start v count)
    (move : Move w (.expiry (w.clock start.ticks)) v v') :
    count < rounds ∧ Underway w start v' (count + 1) := by
  cases move with
  | @lost s _ j m held late found refused =>
    have calls : s.base.length = start.base.length + count := underway.calls
    have below := underway.accepted accepts held late upTo
    rw [calls] at refused
    exact absurd refused (accepts.2 count below)
  | @resent s _ j m held late found accepted =>
    have below := underway.accepted accepts held late upTo
    have calls : s.base.length = start.base.length + count := underway.calls
    have ticks : s.ticks = start.ticks + 1 + count := underway.ticks
    have left := underway.left
    have orderly : Orderly w ⟨s, none, none⟩ := underway.orderly
    have issued : Issued w s := orderly.issued
    have resent : Move w (.expiry (w.clock start.ticks)) ⟨s, none, none⟩ _ :=
      .resent held late found accepted
    have member : j ∈ expiredSlots w s (w.clock start.ticks) := by
      have inside := orderly.tabled.ordered.inside j held
      exact Finset.mem_filter.mpr ⟨Finset.mem_range.mpr inside.2, late⟩
    have positive := Finset.card_pos.mpr ⟨j, member⟩
    refine ⟨below, orderly.move increasing resent,
      underway.covered.move orderly increasing (fun _ _ => accepted) resent, ?_, ?_, ?_⟩
    · change (s.base ++ [_]).length = _
      rw [List.length_append, List.length_singleton, calls, Nat.add_assoc]
    · change s.ticks + 1 = _
      rw [ticks, Nat.add_assoc]
    · change (expiredSlots w s _).card + count = _ at left
      rw [expiredSlots_resent
        (above_of_increasing increasing (issued.lost j found) accepted) accepted,
        Finset.card_erase_of_mem member, resentAgain_succ, ticks]
      omega

theorem covered_expires {rounds : Nat} (increasing : Increasing w)
    (orderly : Orderly w ⟨s, none, none⟩) (covered : Covered ⟨s, none, none⟩ none)
    (accepts : Accepts w s rounds) (expires : Expires w s s') :
    Orderly w ⟨s', none, none⟩ ∧ Covered ⟨s', none, none⟩ none := by
  rcases expires with rfl | chain
  · exact ⟨orderly, covered⟩
  · have tick : Move w .outside ⟨s, none, none⟩ ⟨{ s with ticks := s.ticks + 1 }, none, none⟩ :=
      .idle (Nat.le_succ s.ticks)
    have start : Underway w s ⟨{ s with ticks := s.ticks + 1 }, none, none⟩ 0 :=
      ⟨orderly.move increasing tick, covered.frame rfl rfl, rfl, rfl, rfl⟩
    obtain ⟨count, _, underway⟩ := chain.invariant
      (I := fun v => ∃ count ≤ rounds, Underway w s v count)
      (fun {label _ _} same move before => by
        subst same
        obtain ⟨count, upTo, underway⟩ := before
        obtain ⟨below, next⟩ := underway.move increasing accepts upTo move
        exact ⟨count + 1, below, next⟩) ⟨0, Nat.zero_le _, start⟩
    exact ⟨underway.orderly, underway.covered⟩

/-! ## Runs -/

theorem covered_chain {admitted : Label → Prop} (increasing : Increasing w)
    (kept : Orderly w v ∧ Covered v none) (chain : Chain w admitted v v')
    (apart : ∀ label, admitted label → NoExpiry label) : Orderly w v' ∧ Covered v' none := by
  refine chain.invariant (I := fun v => Orderly w v ∧ Covered v none) ?_ kept
  intro label v v' ok move before
  refine ⟨before.1.move increasing move, before.2.move before.1 increasing ?_ move⟩
  intro now same
  exact absurd same (apart label ok now)

theorem covered_step {op : Op} (increasing : Increasing w)
    (kept : Orderly w ⟨s, none, none⟩ ∧ Covered ⟨s, none, none⟩ none)
    (accepted : ResendsAccepted w s op) (ran : step w op s = .ok s') :
    Orderly w ⟨s', none, none⟩ ∧ Covered ⟨s', none, none⟩ none := by
  cases op with
  | send friendNumber type message beyond =>
    refine covered_chain increasing kept (send_chain ran) ?_
    rintro label (rfl | rfl | rfl) now <;> exact Label.noConfusion
  | receipt friendNumber messageId =>
    rcases receipt_cases ran with ⟨_, _, rfl⟩ | ⟨missing, outside, rfl⟩ | processed
    · exact kept
    · have passed : Move w (.receipt friendNumber messageId) ⟨s, none, none⟩ _ :=
        .passed missing outside
      exact ⟨kept.1.move increasing passed, kept.2.frame rfl rfl⟩
    · refine covered_chain increasing kept (processed.chain friendNumber accepted) fun label admitted => ?_
      rcases admitted with serving | rfl
      · exact serving.others.2.1
      · exact nofun
  | periodic =>
    obtain ⟨rounds, accepts⟩ := accepted
    obtain ⟨s₁, expires, served⟩ := periodic_cases ran
    have after := covered_expires increasing kept.1 kept.2 accepts expires
    exact covered_chain increasing after served.chain fun _ serving => serving.others.2.1

/-- In every run in which no resend of an expired part is rejected, no fragment is stranded. -/
theorem none_stranded_of_accepted_resends {ops : List Op} (increasing : Increasing w)
    (run : Run (step w) (ResendsAccepted w) (Started w) ops s) : NoneStranded s := by
  have kept : Orderly w ⟨s, none, none⟩ ∧ Covered ⟨s, none, none⟩ none := by
    refine run.invariant (I := fun s => Orderly w ⟨s, none, none⟩ ∧ Covered ⟨s, none, none⟩ none)
      ?_ ?_
    · intro s started
      rw [started_iff.mp started]
      refine ⟨.initial, fun a m i _ found => ?_⟩
      cases found
    · intro s op s' before accepted ran
      exact covered_step increasing before accepted ran
  intro a m i found inside unconfirmed
  by_cases waits : (part m i).receipt = 0
  · exact .inl waits
  · obtain ⟨k, live, mine, number⟩ := kept.2 a m i nofun found waits unconfirmed
    exact .inr ⟨k, live.1, mine, number⟩

/-- Two parts go out, and their receipts expire. -/
def bothExpire (answers : List Nat) : World :=
  scripted { maxMessageLength := 64 } answers [1000000000000, 1000000000000, 1000000000000, 1000000020001]

/-- Both parts are sent again. -/
theorem none_stranded_of_both_resent : ∃ s,
    Run (step (bothExpire [5, 6, 7, 8])) (ResendsAccepted (bothExpire [5, 6, 7, 8]))
      (Started (bothExpire [5, 6, 7, 8])) [.periodic, .send 1 0 (List.replicate 65 1) fun _ => 0] s ∧
    s.base.length = 4 ∧ NoneStranded s := by
  obtain ⟨s, run, checked⟩ := exists_run (step (bothExpire [5, 6, 7, 8]))
    (fun s op => Proper op ∧ Accepts (bothExpire [5, 6, 7, 8]) s (2 * s.msgsOutbound.length))
    [.send 1 0 (List.replicate 65 1) fun _ => 0, .periodic] (fun s => s.base.length = 4)
    (started_initialState (bothExpire [5, 6, 7, 8])) (by decide +kernel)
  have run : Run (step (bothExpire [5, 6, 7, 8])) (ResendsAccepted (bothExpire [5, 6, 7, 8]))
      (Started (bothExpire [5, 6, 7, 8])) _ s := run.weaken fun s op guarded => by
    cases op with
    | send => trivial
    | receipt => exact guarded.1
    | periodic => exact ⟨_, guarded.2⟩
  exact ⟨s, run, of_decide_eq_true checked,
    none_stranded_of_accepted_resends (increasing_scripted (by decide)) run⟩

/-- Both resends are rejected: the parts have no record, and nothing picks them up. -/
theorem both_stranded : ∃ s, Increasing (bothExpire [5, 6]) ∧
    Run (step (bothExpire [5, 6])) (fun _ op => Proper op) (Started (bothExpire [5, 6]))
      [.periodic, .send 1 0 (List.replicate 65 1) fun _ => 0] s ∧
    0 ∈ s.msgsOutbound ∧ ¬ NoneStranded s := by
  obtain ⟨s, run, checked⟩ := exists_run (step (bothExpire [5, 6])) (fun _ op => Proper op)
    [.send 1 0 (List.replicate 65 1) fun _ => 0, .periodic]
    (fun s => 0 ∈ s.msgsOutbound ∧ s.receipts.hi = 2 ∧ s.receipts.key 0 = 0 ∧ s.receipts.key 1 = 0 ∧
      (s.heap 0).map (fun m => (m.numParts, (part m 0).confirmed, (part m 0).receipt)) =
        some (2, false, 5))
    (started_initialState (bothExpire [5, 6])) (by decide +kernel)
  have increasing : Increasing (bothExpire [5, 6]) := increasing_scripted (by decide)
  obtain ⟨linked, size, first, second, message⟩ := of_decide_eq_true checked
  refine ⟨s, increasing, run, linked, fun none => ?_⟩
  obtain ⟨m, found, shape⟩ := Option.map_eq_some_iff.mp message
  have shape := Prod.mk.inj shape
  have flags := Prod.mk.inj shape.2
  have orderly : Orderly (bothExpire [5, 6]) ⟨s, Option.none, Option.none⟩ := by
    refine run.invariant (I := fun s => Orderly (bothExpire [5, 6]) ⟨s, Option.none, Option.none⟩) ?_ ?_
    · intro s started
      rw [started_iff.mp started]
      exact .initial
    · intro s op s' before proper ran
      exact before.chain increasing (step_chain proper ran)
  rcases none 0 m 0 found (by omega) flags.1 with zero | ⟨k, held, _⟩
  · omega
  · have inside : k < s.receipts.hi := (orderly.tabled.ordered.inside k held).2
    rcases (by omega : k = 0 ∨ k = 1) with rfl | rfl
    · exact held first
    · exact held second

end Defragmenter.Stranding
