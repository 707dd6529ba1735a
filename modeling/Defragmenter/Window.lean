import Defragmenter.Accounting

/-! The window. Each fragment that goes out adds one record and one to
`numTransit`, each receipt and each expiry takes one of either away, and every
loop that sends asks for room first. So whatever the base library accepts,
`numTransit` is the number of records that wait for the message, whether or not
these are the right ones. -/
namespace Defragmenter.Window
open Split Receipts Sender Moves Provenance Tracking Accounting Runs

/-- The slots whose records wait for receipts of the message. -/
def waiting (v : View) (msg : Nat) : Finset Nat :=
  (Finset.range v.s.receipts.hi).filter fun k => Live v k ∧ (v.s.receipts.receipts k).msg = msg

/-- Every message counts the records that wait for it, and they fit its window. -/
def Windowed (w : World) (v : View) : Prop := ∀ a m, v.s.heap a = some m →
  m.numTransit = (waiting v a).card ∧ m.numTransit ≤ w.params.fragmentsAtATime

variable {w : World} {v v' : View} {label : Label} {s s' : State} {taken taken' : Option Nat}
  {forming forming' : Option (Nat × List UInt8)} {msg i a k : Nat} {m m' : MsgOutbound}

theorem mem_waiting (tabled : Tabled v) :
    k ∈ waiting v a ↔ Live v k ∧ (v.s.receipts.receipts k).msg = a := by
  rw [waiting, Finset.mem_filter, Finset.mem_range, and_iff_right_iff_imp]
  intro here
  exact (tabled.ordered.inside k here.1.1).2

theorem waiting_frame (forming forming' : Option (Nat × List UInt8)) (receipts : s'.receipts = s.receipts) :
    waiting ⟨s', taken, forming'⟩ a = waiting ⟨s, taken, forming⟩ a := by
  ext k
  rw [waiting, waiting, Finset.mem_filter, Finset.mem_filter]
  simp only [Live, receipts]

theorem Windowed.frame (windowed : Windowed w ⟨s, taken, forming⟩) (heap : s'.heap = s.heap)
    (receipts : s'.receipts = s.receipts) : Windowed w ⟨s', taken, forming'⟩ := by
  intro a m here
  rw [waiting_frame forming forming' receipts]
  exact windowed a m (heap ▸ here)

/-- A message changes without its count. -/
theorem Windowed.update (windowed : Windowed w ⟨s, taken, forming⟩) (found : s.heap msg = some m)
    (same : m'.numTransit = m.numTransit)
    (heap : s'.heap = Function.update s.heap msg (some m')) (receipts : s'.receipts = s.receipts) :
    Windowed w ⟨s', taken, forming'⟩ := by
  intro a m₁ here
  rw [waiting_frame forming forming' receipts]
  change s'.heap a = some m₁ at here
  rw [heap] at here
  obtain ⟨mine, here⟩ | ⟨_, here⟩ := heap_update_iff.mp here
  · cases here
    rw [same, mine]
    exact windowed msg m found
  · exact windowed a m₁ here

theorem Windowed.erase (windowed : Windowed w ⟨s, taken, forming⟩)
    (heap : s'.heap = Function.update s.heap msg none) (receipts : s'.receipts = s.receipts) :
    Windowed w ⟨s', taken, forming'⟩ := by
  intro a m₁ here
  rw [waiting_frame forming forming' receipts]
  change s'.heap a = some m₁ at here
  rw [heap] at here
  obtain ⟨_, none⟩ | ⟨_, here⟩ := heap_update_iff.mp here
  · cases none
  · exact windowed a m₁ here

/-- No record waits for a message whose address is new. -/
theorem waiting_fresh (issued : Issued w s) : waiting ⟨s, taken, forming⟩ s.fresh = ∅ := by
  refine Finset.filter_eq_empty_iff.mpr ?_
  rintro k _ ⟨live, mine⟩
  obtain ⟨i, call, at_i, part, _⟩ := issued.recorded k live.1
  have below := (issued.called at_i part).1
  change (s.receipts.receipts k).msg = s.fresh at mine
  omega

theorem Windowed.allocate (windowed : Windowed w ⟨s, taken, forming⟩) (issued : Issued w s)
    (none : m.numTransit = 0) (heap : s'.heap = Function.update s.heap s.fresh (some m))
    (receipts : s'.receipts = s.receipts) : Windowed w ⟨s', taken, forming'⟩ := by
  intro a m₁ here
  rw [waiting_frame forming forming' receipts]
  change s'.heap a = some m₁ at here
  rw [heap] at here
  obtain ⟨mine, here⟩ | ⟨_, here⟩ := heap_update_iff.mp here
  · cases here
    rw [mine, waiting_fresh issued, none]
    exact ⟨rfl, Nat.zero_le _⟩
  · exact windowed a m₁ here

theorem waiting_sent (tabled : Tabled ⟨s, taken, forming⟩)
    (above : ∀ j, s.receipts.key j < w.answer s.base.length) :
    waiting ⟨sentState w s msg m i m', taken, forming⟩ a =
      if a = msg then insert s.receipts.hi (waiting ⟨s, taken, forming⟩ a)
      else waiting ⟨s, taken, forming⟩ a := by
  have unheld : s.receipts.key s.receipts.hi = 0 := by
    refine Decidable.not_not.mp fun held => ?_
    exact absurd (tabled.ordered.inside _ held).2 (Nat.lt_irrefl _)
  have untaken : taken ≠ some s.receipts.hi := fun here => tabled.taken _ here unheld
  have after : Tabled ⟨sentState w s msg m i m', taken, forming⟩ := tabled.sent above
  ext k
  have here : Live ⟨sentState w s msg m i m', taken, forming⟩ k ∧
      ((sentState w s msg m i m').receipts.receipts k).msg = a ↔
      if k = s.receipts.hi then a = msg
      else Live ⟨s, taken, forming⟩ k ∧ (s.receipts.receipts k).msg = a := by
    simp only [Live, sentState_key above, sentState_receipts above]
    by_cases new : k = s.receipts.hi
    · subst new
      have accepted : w.answer s.base.length ≠ 0 := Nat.ne_of_gt (Nat.lt_of_le_of_lt (Nat.zero_le _) (above 0))
      simp only [↓reduceIte]
      exact ⟨fun all => all.2.symm, fun same => ⟨⟨accepted, untaken⟩, same.symm⟩⟩
    · simp only [if_neg new]
  rw [mem_waiting after]
  change Live _ k ∧ ((sentState w s msg m i m').receipts.receipts k).msg = a ↔ _
  rw [here]
  by_cases new : k = s.receipts.hi
  · rw [if_pos new]
    have absent : k ∉ waiting ⟨s, taken, forming⟩ a := by
      rw [mem_waiting tabled]
      rintro ⟨live, _⟩
      exact live.1 (new ▸ unheld)
    by_cases mine : a = msg
    · simp [mine, new]
    · simp [mine, absent]
  · rw [if_neg new, ← mem_waiting tabled]
    split <;> simp [new]

/-- A part of a message with room goes out. -/
theorem Windowed.sent (windowed : Windowed w ⟨s, taken, forming⟩)
    (small : w.params.fragmentsAtATime < 2 ^ 32) (tabled : Tabled ⟨s, taken, forming⟩)
    (above : ∀ j, s.receipts.key j < w.answer s.base.length) (found : s.heap msg = some m)
    (room : m.numTransit < w.params.fragmentsAtATime)
    (count : m'.numTransit = (m.numTransit + 1) % 2 ^ 32) :
    Windowed w ⟨sentState w s msg m i m', taken, forming⟩ := by
  intro a m₁ here
  rw [waiting_sent tabled above]
  obtain ⟨mine, here⟩ | ⟨other, here⟩ := heap_update_iff.mp here
  · cases here
    have before := (windowed msg m found).1
    have absent : s.receipts.hi ∉ waiting ⟨s, taken, forming⟩ msg :=
      fun member => tabled.not_live ((mem_waiting tabled).mp member).1
    rw [if_pos mine, mine, Finset.card_insert_of_notMem absent, ← before, count]
    omega
  · rw [if_neg other]
    exact windowed a m₁ here

/-- The record in slot `j` is not waited for any more, and its message counts one less. -/
theorem Windowed.release {j : Nat} (windowed : Windowed w ⟨s, taken, forming⟩)
    (small : w.params.fragmentsAtATime < 2 ^ 32) (tabled : Tabled ⟨s, taken, forming⟩)
    (tabled' : Tabled ⟨s', taken', forming'⟩)
    (live : Live ⟨s, taken, forming⟩ j) (found : s.heap (s.receipts.receipts j).msg = some m)
    (count : m'.numTransit = toUnsigned ((m.numTransit : Int) - 1))
    (heap : s'.heap = Function.update s.heap (s.receipts.receipts j).msg (some m'))
    (kept : ∀ k, Live ⟨s', taken', forming'⟩ k ↔ Live ⟨s, taken, forming⟩ k ∧ k ≠ j)
    (same : ∀ k, k ≠ j → s'.receipts.receipts k = s.receipts.receipts k) :
    Windowed w ⟨s', taken', forming'⟩ ∧ m'.numTransit < w.params.fragmentsAtATime := by
  have erased : ∀ a, waiting ⟨s', taken', forming'⟩ a = (waiting ⟨s, taken, forming⟩ a).erase j := by
    intro a
    ext k
    rw [mem_waiting tabled', Finset.mem_erase, mem_waiting tabled, kept]
    by_cases here : k = j
    · simp [here]
    · change (_ ∧ _) ∧ (s'.receipts.receipts k).msg = a ↔ _
      rw [same k here]
      tauto
  have member : j ∈ waiting ⟨s, taken, forming⟩ (s.receipts.receipts j).msg :=
    (mem_waiting tabled).mpr ⟨live, rfl⟩
  obtain ⟨counted, within⟩ := windowed _ m found
  have positive := Finset.card_pos.mpr ⟨j, member⟩
  have less : m'.numTransit = m.numTransit - 1 := by
    rw [count, show ((m.numTransit : Int) - 1) = ((m.numTransit - 1 : Nat) : Int) by omega]
    exact toUnsigned_of_lt (by omega)
  refine ⟨fun a m₁ here => ?_, by omega⟩
  rw [erased]
  change s'.heap a = some m₁ at here
  rw [heap] at here
  obtain ⟨mine, here⟩ | ⟨other, here⟩ := heap_update_iff.mp here
  · cases here
    rw [mine, Finset.card_erase_of_mem member, less, counted]
    omega
  · have absent : j ∉ waiting ⟨s, taken, forming⟩ a := by
      rw [mem_waiting tabled]
      exact fun here => other here.2.symm
    rw [Finset.erase_eq_of_notMem absent]
    exact windowed a m₁ here

theorem live_cleared {j : Nat} :
    Live ⟨clearedState s j, none, none⟩ k ↔ s.receipts.key k ≠ 0 ∧ k ≠ j := by
  change ((s.receipts.clear j).trim j).key k ≠ 0 ∧ _ ↔ _
  rw [ReceiptTable.key_trim, ReceiptTable.key_clear]
  by_cases same : k = j <;> simp [same]

theorem live_lost_iff {j : Nat} :
    Live ⟨lostState s j msg m, none, none⟩ k ↔ Live ⟨s, none, none⟩ k ∧ k ≠ j := by
  change (s.receipts.clear j).key k ≠ 0 ∧ _ ↔ _
  rw [ReceiptTable.key_clear]
  by_cases same : k = j <;> simp [same, Live]

/-- Every move keeps the counts. -/
theorem Windowed.move (windowed : Windowed w v) (small : w.params.fragmentsAtATime < 2 ^ 32)
    (orderly : Orderly w v) (increasing : Increasing w) (move : Move w label v v') :
    Windowed w v' := by
  have after := orderly.move increasing move
  cases move with
  | idle | short | passed | firstRefused | nextRefused | failedRefused =>
    exact windowed.frame rfl rfl
  | @begun s friendNumber message m _ split =>
    have none : ({ m with friendNumber } : MsgOutbound).numTransit = 0 := (unsent_of_split split).numTransit
    exact windowed.allocate orderly.issued none rfl rfl
  | @opened s msg receipt type _ m _ found =>
    have same : ({ m with type, receipt } : MsgOutbound).numTransit = m.numTransit := rfl
    exact windowed.update found same rfl rfl
  | dropped | completed => exact windowed.erase rfl rfl
  | firstSent found _ room _ _ accepted | nextSent found _ room _ accepted
  | failedSent found _ room _ accepted =>
    exact windowed.sent small orderly.tabled (orderly.above increasing accepted) found room rfl
  | @lost s now j m held _ found =>
    have live : Live ⟨s, none, none⟩ j := ⟨held, by simp⟩
    have released : Windowed w ⟨lostState s j (s.receipts.receipts j).msg m, none, none⟩ ∧
        (partLost m).numTransit < _ :=
      windowed.release small orderly.tabled (orderly.tabled.lost j (s.receipts.receipts j).msg m) live
        found rfl rfl (fun k => live_lost_iff) (fun k other => ReceiptTable.receipts_clear_ne other)
    exact released.1.frame rfl rfl
  | @resent s now j m held _ found accepted =>
    have live : Live ⟨s, none, none⟩ j := ⟨held, by simp⟩
    have lost := orderly.tabled.lost j (s.receipts.receipts j).msg m
    obtain ⟨released, room⟩ : Windowed w ⟨lostState s j (s.receipts.receipts j).msg m, none, none⟩ ∧
        (partLost m).numTransit < _ :=
      windowed.release small orderly.tabled lost live found rfl rfl (fun k => live_lost_iff)
        (fun k other => ReceiptTable.receipts_clear_ne other)
    have issued : Issued w s := orderly.issued
    exact released.sent small lost (above_of_increasing increasing (issued.lost j found) accepted)
      (Function.update_self ..) room rfl
  | @confirmed s _ _ j m db nonzero _ held found =>
    have live : Live ⟨s, none, none⟩ j := ⟨held ▸ nonzero, by simp⟩
    have kept : ∀ k, Live ⟨confirmedState s j m db, some j, none⟩ k ↔
        Live ⟨s, none, none⟩ k ∧ k ≠ j := by
      intro k
      change s.receipts.key k ≠ 0 ∧ some j ≠ some k ↔ (s.receipts.key k ≠ 0 ∧ none ≠ some k) ∧ k ≠ j
      simp [eq_comm]
    have released : Windowed w ⟨confirmedState s j m db, some j, none⟩ ∧
        (partConfirmed m (s.receipts.receipts j).partNo).numTransit < _ :=
      windowed.release small orderly.tabled after.tabled live found rfl rfl kept (fun _ _ => rfl)
    exact released.1
  | @cleared s _ _ j =>
    intro a m here
    have same : waiting ⟨clearedState s j, none, none⟩ a = waiting ⟨s, some j, none⟩ a := by
      ext k
      rw [mem_waiting after.tabled, mem_waiting orderly.tabled, live_cleared]
      change (_ ∧ _) ∧ (((s.receipts.clear j).trim j).receipts k).msg = a ↔
        (s.receipts.key k ≠ 0 ∧ some j ≠ some k) ∧ (s.receipts.receipts k).msg = a
      rw [ReceiptTable.receipts_trim]
      by_cases here : k = j
      · simp [here]
      · rw [ReceiptTable.receipts_clear_ne here]
        simp [here, Ne.symm here]
    rw [same]
    exact windowed a m here

theorem Windowed.chain {admitted : Label → Prop} (windowed : Windowed w v)
    (small : w.params.fragmentsAtATime < 2 ^ 32) (orderly : Orderly w v) (increasing : Increasing w)
    (chain : Chain w admitted v v') : Windowed w v' := by
  have kept : Orderly w v' ∧ Windowed w v' := by
    refine chain.invariant (I := fun v => Orderly w v ∧ Windowed w v) ?_ ⟨orderly, windowed⟩
    intro label v v' _ move before
    exact ⟨before.1.move increasing move, before.2.move small before.1 increasing move⟩
  exact kept.2

/-- Between the calls no slot is being processed. -/
theorem liveSlots_waiting (tabled : Tabled ⟨s, none, none⟩) : liveSlots s a = waiting ⟨s, none, none⟩ a := by
  ext k
  rw [mem_waiting tabled, liveSlots, Finset.mem_filter, Finset.mem_range]
  change _ ↔ (s.receipts.key k ≠ 0 ∧ none ≠ some k) ∧ (s.receipts.receipts k).msg = a
  constructor
  · rintro ⟨_, _, held, mine⟩
    exact ⟨⟨held, nofun⟩, mine⟩
  · rintro ⟨⟨held, _⟩, mine⟩
    have inside := tabled.ordered.inside k held
    exact ⟨inside.2, inside.1, held, mine⟩

/-- `fragmentsAtATime` is an `unsigned`. In every run, every message counts the
live records of its parts, and there are no more of them than its window. -/
theorem window_bound {ops : List Op} (increasing : Increasing w)
    (small : w.params.fragmentsAtATime < 2 ^ 32)
    (run : Run (step w) (fun _ op => Proper op) (Started w) ops s) :
    ∀ a m, s.heap a = some m →
      m.numTransit = (liveSlots s a).card ∧ m.numTransit ≤ w.params.fragmentsAtATime := by
  have kept : Orderly w ⟨s, none, none⟩ ∧ Windowed w ⟨s, none, none⟩ := by
    refine run.invariant (I := fun s => Orderly w ⟨s, none, none⟩ ∧ Windowed w ⟨s, none, none⟩) ?_ ?_
    · intro s started
      rw [started_iff.mp started]
      exact ⟨.initial, fun a m found => by cases found⟩
    · intro s op s' before proper ran
      have chain := step_chain proper ran
      exact ⟨before.1.chain increasing chain, before.2.chain small before.1 increasing chain⟩
  intro a m found
  rw [liveSlots_waiting kept.1.tabled]
  exact kept.2 a m found

/-- Two parts, of which only one may be under way. -/
def windowOfOne : World := scripted { maxMessageLength := 64, fragmentsAtATime := 1 } [5, 6] []

/-- The receipt of the first part lets the second go out. -/
theorem window_bound_of_one : ∃ s,
    Run (step windowOfOne) (fun _ op => Proper op) (Started windowOfOne)
      [.receipt 1 5, .send 1 0 (List.replicate 65 1) fun _ => 0] s ∧
    s.base.length = 2 ∧ ∀ a m, s.heap a = some m →
      m.numTransit = (liveSlots s a).card ∧ m.numTransit ≤ windowOfOne.params.fragmentsAtATime := by
  obtain ⟨s, run, checked⟩ := exists_run (step windowOfOne) (fun _ op => Proper op)
    [.send 1 0 (List.replicate 65 1) fun _ => 0, .receipt 1 5] (fun s => s.base.length = 2)
    (started_initialState windowOfOne) (by decide +kernel)
  exact ⟨s, run, of_decide_eq_true checked,
    window_bound (increasing_scripted (by decide)) (by decide) run⟩

end Defragmenter.Window
