import Defragmenter.Window

/-! What becomes of the fragments that the base library accepts. The counters
of a message change in three places, of which one does not look at the part,
and none of them is compared with the others. In every run they balance all the
same: an accepted call is one that a record still waits for, one whose receipt
came, or one that was given up. -/
namespace Defragmenter.Conservation
open Split Receipts Sender Moves Provenance Tracking Accounting Window Runs

/-- How many of the calls that `p` picks the base library accepted. -/
def acceptedCalls (w : World) (p : BaseCall → Bool) (calls : List BaseCall) : Nat :=
  calls.zipIdx.countP fun c => p c.1 && w.answer c.2 != 0

def ofMessage (a : Nat) (call : BaseCall) : Bool := call.part.map Prod.fst = some a

def ofPart (a i : Nat) (call : BaseCall) : Bool := call.part = some (a, i + 1)

def confirms (a : Nat) : Event → Bool
  | .confirmed msg _ _ => msg = a
  | _ => false

/-- How many receipts of the message were processed. -/
def confirmations (s : State) (a : Nat) : Nat := s.events.countP (confirms a)

/-- The counters of the message agree with what happened. `timesSent` and
`numLoss` only count up; they are not reduced to 32 bits here. -/
structure Balance (w : World) (s : State) (a : Nat) (m : MsgOutbound) : Prop where
  parts : ∀ i, (part m i).timesSent = acceptedCalls w (ofPart a i) s.base
  whole : m.numTransit + confirmations s a + m.numLoss = acceptedCalls w (ofMessage a) s.base
  confirmed : m.numConfirmed = confirmations s a % 2 ^ 32

structure Balanced (w : World) (s : State) : Prop where
  balance : ∀ a m, s.heap a = some m → Balance w s a m
  /-- Nothing was confirmed of a message whose address is not given out. -/
  unused : ∀ a, s.fresh ≤ a → confirmations s a = 0

variable {w : World} {v v' : View} {label : Label} {s s' : State} {a msg i j : Nat} {m m' : MsgOutbound}
  {p : BaseCall → Bool} {calls : List BaseCall} {call : BaseCall}

/-! ## Counting -/

theorem acceptedCalls_snoc : acceptedCalls w p (calls ++ [call]) =
    acceptedCalls w p calls + if p call = true ∧ w.answer calls.length ≠ 0 then 1 else 0 := by
  rw [acceptedCalls, List.zipIdx_append, List.countP_append, Nat.zero_add, List.zipIdx_singleton, List.countP_singleton]
  simp only [Bool.and_eq_true, bne_iff_ne]
  rfl

theorem acceptedCalls_eq_zero (none : ∀ call ∈ calls, p call = false) : acceptedCalls w p calls = 0 := by
  apply List.countP_eq_zero.mpr
  intro c member
  simp [none c.1 (List.fst_mem_of_mem_zipIdx member)]

theorem ofPart_partCall {k : Nat} : ofPart a k (partCall msg m i) = true ↔ a = msg ∧ k = i := by
  simp only [ofPart, partCall, decide_eq_true_eq, Option.some.injEq, Prod.mk.injEq]
  omega

theorem ofMessage_partCall : ofMessage a (partCall msg m i) = true ↔ a = msg := by
  simp [ofMessage, partCall, eq_comm]

theorem foreign_part (foreign : ofMessage a call = false) : ofPart a i call = false := by
  rw [← Bool.not_eq_true] at foreign ⊢
  intro mine
  have here : call.part = some (a, i + 1) := of_decide_eq_true mine
  apply foreign
  simp [ofMessage, here]

/-- Nothing happened that the counters of the message at `a` tell. -/
structure Unmoved (w : World) (s s' : State) (a : Nat) : Prop where
  parts : ∀ i, acceptedCalls w (ofPart a i) s'.base = acceptedCalls w (ofPart a i) s.base
  whole : acceptedCalls w (ofMessage a) s'.base = acceptedCalls w (ofMessage a) s.base
  confirmed : confirmations s' a = confirmations s a

theorem Unmoved.of_base (base : s'.base = s.base) (confirmed : confirmations s' a = confirmations s a) :
    Unmoved w s s' a := by
  refine ⟨fun i => ?_, ?_, confirmed⟩
  · rw [base]
  · rw [base]

/-- A call is made that is not accepted, or not for this message. -/
theorem Unmoved.of_call (base : s'.base = s.base ++ [call]) (events : s'.events = s.events)
    (other : w.answer s.base.length = 0 ∨ ofMessage a call = false) : Unmoved w s s' a := by
  have uncounted : ¬ (ofMessage a call = true ∧ w.answer s.base.length ≠ 0) := by
    rintro ⟨mine, accepted⟩
    obtain refused | foreign := other
    · exact accepted refused
    · rw [foreign] at mine
      cases mine
  refine ⟨fun i => ?_, ?_, ?_⟩
  · rw [base, acceptedCalls_snoc, if_neg, Nat.add_zero]
    rintro ⟨mine, accepted⟩
    refine uncounted ⟨?_, accepted⟩
    by_contra foreign
    rw [Bool.not_eq_true] at foreign
    rw [foreign_part foreign] at mine
    cases mine
  · rw [base, acceptedCalls_snoc, if_neg uncounted, Nat.add_zero]
  · rw [confirmations, confirmations, events]

theorem Balance.unmoved (balance : Balance w s a m) (unmoved : Unmoved w s s' a) : Balance w s' a m where
  parts i := (balance.parts i).trans (unmoved.parts i).symm
  whole := by
    rw [unmoved.confirmed, unmoved.whole]
    exact balance.whole
  confirmed := by
    rw [unmoved.confirmed]
    exact balance.confirmed

/-! ## What the moves do -/

theorem Balanced.frame (balanced : Balanced w s) (unmoved : ∀ a, Unmoved w s s' a)
    (heap : ∀ a m, s'.heap a = some m → s.heap a = some m) (fresh : s.fresh ≤ s'.fresh) : Balanced w s' where
  balance a m here := (balanced.balance a m (heap a m here)).unmoved (unmoved a)
  unused a unborn := by
    rw [(unmoved a).confirmed]
    exact balanced.unused a (Nat.le_trans fresh unborn)

/-- Something happens to one message. -/
theorem Balanced.update (balanced : Balanced w s) (own : Balance w s' msg m') (born : msg < s'.fresh)
    (others : ∀ a ≠ msg, Unmoved w s s' a) (heap : s'.heap = Function.update s.heap msg (some m'))
    (fresh : s.fresh ≤ s'.fresh) : Balanced w s' where
  balance a m here := by
    rw [heap] at here
    obtain ⟨mine, here⟩ | ⟨other, here⟩ := heap_update_iff.mp here
    · cases here
      rw [mine]
      exact own
    · exact (balanced.balance a m here).unmoved (others a other)
  unused a unborn := by
    have other : a ≠ msg := Nat.ne_of_gt (Nat.lt_of_lt_of_le born unborn)
    rw [(others a other).confirmed]
    exact balanced.unused a (Nat.le_trans fresh unborn)

/-- A part goes out. -/
theorem Balance.sent (balance : Balance w s msg m) (inside : i < m.fragments.length)
    (room : m.numTransit + 1 < 2 ^ 32) (accepted : w.answer s.base.length ≠ 0)
    (sent : ∀ k, part m' k = part (partSent m i (w.answer s.base.length)) k)
    (transit : m'.numTransit = (m.numTransit + 1) % 2 ^ 32) (loss : m'.numLoss = m.numLoss)
    (confirmed : m'.numConfirmed = m.numConfirmed) : Balance w (sentState w s msg m i m') msg m' := by
  have counted : confirmations (sentState w s msg m i m') msg = confirmations s msg := rfl
  refine ⟨fun k => ?_, ?_, ?_⟩
  · change _ = acceptedCalls w (ofPart msg k) (s.base ++ [partCall msg m i])
    rw [sent, part_partSent inside, acceptedCalls_snoc, ← balance.parts]
    simp only [ofPart_partCall]
    by_cases same : k = i
    · simp [same, accepted]
    · simp [same]
  · change _ = acceptedCalls w (ofMessage msg) (s.base ++ [partCall msg m i])
    rw [acceptedCalls_snoc, if_pos ⟨ofMessage_partCall.mpr rfl, accepted⟩, ← balance.whole, counted, transit, loss,
      Nat.mod_eq_of_lt room]
    omega
  · rw [confirmed, counted]
    exact balance.confirmed

/-- The heap may hold an older message in place of the one that is sent from. -/
theorem Balanced.sent (balanced : Balanced w s) (own : Balance w (sentState w s msg m i m') msg m')
    (born : msg < s.fresh) : Balanced w (sentState w s msg m i m') := by
  refine balanced.update own born (fun a other => ?_) rfl (Nat.le_refl _)
  have foreign : ofMessage a (partCall msg m i) = false := by
    rw [← Bool.not_eq_true, ofMessage_partCall]
    exact other
  exact Unmoved.of_call rfl rfl (.inr foreign)

theorem transit_partLost (positive : 0 < m.numTransit) (small : m.numTransit < 2 ^ 32) :
    (partLost m).numTransit = m.numTransit - 1 := by
  change toUnsigned ((m.numTransit : Int) - 1) = _
  rw [show ((m.numTransit : Int) - 1) = ((m.numTransit - 1 : Nat) : Int) by omega]
  exact toUnsigned_of_lt (by omega)

theorem Balance.lost (balance : Balance w s a m) (positive : 0 < m.numTransit) (small : m.numTransit < 2 ^ 32) :
    Balance w s a (partLost m) where
  parts := balance.parts
  whole := by
    have less := transit_partLost positive small
    have more : (partLost m).numLoss = m.numLoss + 1 := rfl
    have before := balance.whole
    omega
  confirmed := balance.confirmed

/-- The receipt of the part in slot `j` comes in. -/
theorem Balance.confirmation {db : Database.Db} (balance : Balance w s (s.receipts.receipts j).msg m)
    (inside : (s.receipts.receipts j).partNo - 1 < m.fragments.length) (positive : 0 < m.numTransit)
    (small : m.numTransit < 2 ^ 32) :
    Balance w (confirmedState s j m db) (s.receipts.receipts j).msg
      (partConfirmed m (s.receipts.receipts j).partNo) where
  parts i := by
    rw [part_partConfirmed inside]
    refine Eq.trans ?_ (balance.parts i)
    split <;> rfl
  whole := by
    have more : confirmations (confirmedState s j m db) (s.receipts.receipts j).msg =
        confirmations s (s.receipts.receipts j).msg + 1 := by
      simp [confirmations, confirmedState, confirms]
    have less : (partConfirmed m (s.receipts.receipts j).partNo).numTransit = m.numTransit - 1 :=
      transit_partLost positive small
    have before := balance.whole
    change _ + _ + m.numLoss = _
    rw [more, less]
    change _ = acceptedCalls w (ofMessage (s.receipts.receipts j).msg) s.base
    omega
  confirmed := by
    have more : confirmations (confirmedState s j m db) (s.receipts.receipts j).msg =
        confirmations s (s.receipts.receipts j).msg + 1 := by
      simp [confirmations, confirmedState, confirms]
    change (m.numConfirmed + 1) % 2 ^ 32 = _
    rw [more, balance.confirmed]
    omega

theorem splitLoop_unsent {size id numParts length fuel partNo off len : Nat} {bytes : List UInt8} {f : Fragment}
    (member : f ∈ splitLoop size id numParts length fuel partNo off len bytes) : f.timesSent = 0 := by
  induction fuel generalizing partNo off len bytes with
  | zero => simp [splitLoop] at member
  | succ fuel ih =>
    rw [splitLoop] at member
    split at member
    · simp at member
    · obtain rfl | later := List.mem_cons.mp member
      · rfl
      · exact ih later

/-- A message that was just split has nothing to account for. -/
theorem counts_of_split {markerMaxSizeEver maxLength id : Nat} {message : List UInt8}
    (split : splitMessage markerMaxSizeEver message maxLength id = .ok m) :
    (∀ i, (part m i).timesSent = 0) ∧ m.numLoss = 0 := by
  unfold splitMessage at split
  dsimp only at split
  split at split
  · cases split
  · split at split
    · cases split
    · cases split
      refine ⟨fun i => ?_, rfl⟩
      rw [part, List.getD_eq_getElem?_getD]
      cases found : (List.takeD _ _ _)[i]? with
      | none => simp
      | some f =>
        obtain built | rfl := mem_takeD (List.mem_of_getElem? found)
        · exact splitLoop_unsent built
        · rfl

/-- While a record waits for the message, it counts it, within its window. -/
theorem transit_of_live (windowed : Windowed w ⟨s, none, none⟩) (tabled : Tabled ⟨s, none, none⟩)
    (held : s.receipts.key j ≠ 0) (found : s.heap (s.receipts.receipts j).msg = some m) :
    0 < m.numTransit ∧ m.numTransit ≤ w.params.fragmentsAtATime := by
  obtain ⟨counted, within⟩ := windowed _ m found
  have member : j ∈ waiting ⟨s, none, none⟩ (s.receipts.receipts j).msg :=
    (mem_waiting tabled).mpr ⟨⟨held, nofun⟩, rfl⟩
  have positive := Finset.card_pos.mpr ⟨j, member⟩
  omega

/-- Every move keeps the balance. -/
theorem Balanced.move (balanced : Balanced w v.s) (windowed : Windowed w v) (small : w.params.fragmentsAtATime < 2 ^ 32)
    (orderly : Orderly w v) (move : Move w label v v') : Balanced w v'.s := by
  have issued := orderly.issued
  cases move with
  | idle | passed | cleared => exact balanced.frame (fun a => .of_base rfl rfl) (fun _ _ here => here) (Nat.le_refl _)
  | @short v call own =>
    have foreign : ∀ a, ofMessage a call = false := by
      intro a
      simp [ofMessage, own]
    exact balanced.frame (fun a => .of_call rfl rfl (.inr (foreign a))) (fun _ _ here => here) (Nat.le_refl _)
  | firstRefused _ _ _ _ refused | nextRefused _ _ _ _ refused | failedRefused _ _ _ _ refused =>
    exact balanced.frame (fun a => .of_call rfl rfl (.inl refused)) (fun _ _ here => here) (Nat.le_refl _)
  | dropped | completed =>
    refine balanced.frame (fun a => .of_base rfl rfl) (fun a m here => ?_) (Nat.le_refl _)
    obtain ⟨_, none⟩ | ⟨_, here⟩ := heap_update_iff.mp here
    · cases none
    · exact here
  | @begun s friendNumber message m _ split =>
    have unsent := unsent_of_split split
    obtain ⟨none, lossless⟩ := counts_of_split split
    have uncalled : ∀ call ∈ s.base, ofMessage s.fresh call = false := by
      intro call member
      obtain ⟨i, at_i⟩ := List.mem_iff_getElem?.mp member
      rw [← Bool.not_eq_true]
      intro mine
      obtain ⟨⟨a, partNo⟩, part, same⟩ := Option.map_eq_some_iff.mp (of_decide_eq_true mine)
      cases same
      exact absurd (issued.called at_i part).1 (Nat.lt_irrefl _)
    have own : Balance w (begunState w s friendNumber m) s.fresh { m with friendNumber } := by
      refine ⟨fun i => ?_, ?_, ?_⟩
      · exact (none i).trans (acceptedCalls_eq_zero fun call member => foreign_part (uncalled call member)).symm
      · change m.numTransit + confirmations s s.fresh + m.numLoss = acceptedCalls w (ofMessage s.fresh) s.base
        rw [unsent.numTransit, lossless, balanced.unused s.fresh (Nat.le_refl _), acceptedCalls_eq_zero uncalled]
      · change m.numConfirmed = confirmations s s.fresh % 2 ^ 32
        rw [unsent.numConfirmed, balanced.unused s.fresh (Nat.le_refl _)]
        rfl
    exact balanced.update own (Nat.lt_succ_self _) (fun a _ => .of_base rfl rfl) rfl (Nat.le_succ _)
  | @opened s msg receipt type message m db found =>
    have unmoved : Unmoved w s (openedState s msg m type message receipt db) msg := .of_base rfl rfl
    have own := (balanced.balance msg m found).unmoved unmoved
    have own : Balance w (openedState s msg m type message receipt db) msg { m with type, receipt } :=
      ⟨own.parts, own.whole, own.confirmed⟩
    exact balanced.update own (issued.below found) (fun a _ => .of_base rfl rfl) rfl (Nat.le_refl _)
  | @firstSent s msg i _ m found inside room _ _ accepted | @nextSent s _ msg i m found inside room _ accepted
  | @failedSent s _ msg i m found inside room _ accepted =>
    have own : Balance w s msg m := balanced.balance msg m found
    have inside : i < m.fragments.length := by
      rw [(issued.shaped found).1]
      exact inside
    exact balanced.sent (own.sent inside (by omega) accepted (fun _ => rfl) rfl rfl rfl) (issued.below found)
  | @lost s now j m held _ found refused =>
    obtain ⟨positive, within⟩ := transit_of_live windowed orderly.tabled held found
    have own := (balanced.balance _ m found).lost positive (by omega)
    have kept : Balanced w (lostState s j (s.receipts.receipts j).msg m) :=
      balanced.update (own.unmoved (.of_base rfl rfl)) (issued.below found) (fun a _ => .of_base rfl rfl) rfl
        (Nat.le_refl _)
    exact kept.frame (fun a => .of_call rfl rfl (.inl refused)) (fun _ _ here => here) (Nat.le_refl _)
  | @resent s now j m held _ found accepted =>
    obtain ⟨positive, within⟩ := transit_of_live windowed orderly.tabled held found
    have own := (balanced.balance _ m found).lost positive (by omega)
    have kept : Balanced w (lostState s j (s.receipts.receipts j).msg m) :=
      balanced.update (own.unmoved (.of_base rfl rfl)) (issued.below found) (fun a _ => .of_base rfl rfl) rfl
        (Nat.le_refl _)
    have own := kept.balance _ (partLost m) (Function.update_self ..)
    have less := transit_partLost positive (by omega)
    have inside : (s.receipts.receipts j).partNo - 1 < m.fragments.length := issued.place held found
    exact kept.sent (own.sent inside (by omega) accepted (fun _ => rfl) rfl rfl rfl) (issued.below found)
  | @confirmed s _ _ j m db nonzero _ held found =>
    obtain ⟨positive, within⟩ := transit_of_live windowed orderly.tabled (held ▸ nonzero) found
    have own : Balance w (confirmedState s j m db) _ (partConfirmed m (s.receipts.receipts j).partNo) :=
      (balanced.balance _ m found).confirmation (issued.place (held ▸ nonzero) found) positive (by omega)
    refine balanced.update own (issued.below found) (fun a other => .of_base rfl ?_) rfl (Nat.le_refl _)
    have foreign : ∀ partNo receipt, confirms a (.confirmed (s.receipts.receipts j).msg partNo receipt) = false := by
      simp [confirms, Ne.symm other]
    simp [confirmations, confirmedState, foreign]

/-- No call of the base library is left out of the books, in every run with any
answers, expiries and receipts: what it accepted of a message is what is waited
for, what was confirmed, and what was lost; and every part counts its own. -/
theorem accepted_accounted {ops : List Op} (increasing : Increasing w) (small : w.params.fragmentsAtATime < 2 ^ 32)
    (run : Run (step w) (fun _ op => Proper op) (Started w) ops s) : ∀ a m, s.heap a = some m →
      (liveSlots s a).card + confirmations s a + m.numLoss = acceptedCalls w (ofMessage a) s.base ∧
      m.numConfirmed = confirmations s a % 2 ^ 32 ∧
      ∀ i, (part m i).timesSent = acceptedCalls w (ofPart a i) s.base := by
  have kept : (Orderly w ⟨s, none, none⟩ ∧ Windowed w ⟨s, none, none⟩) ∧ Balanced w s := by
    refine run.invariant (I := fun s => (Orderly w ⟨s, none, none⟩ ∧ Windowed w ⟨s, none, none⟩) ∧ Balanced w s) ?_ ?_
    · intro s started
      rw [started_iff.mp started]
      refine ⟨⟨.initial, fun a m found => ?_⟩, fun a m found => ?_, fun a _ => rfl⟩
      · cases found
      · cases found
    · intro s op s' before proper ran
      refine (step_chain proper ran).invariant (I := fun v => (Orderly w v ∧ Windowed w v) ∧ Balanced w v.s) ?_ before
      intro label v v' _ move ⟨⟨orderly, windowed⟩, balanced⟩
      exact ⟨⟨orderly.move increasing move, windowed.move small orderly increasing move⟩,
        balanced.move windowed small orderly move⟩
  intro a m found
  have balance := kept.2.balance a m found
  refine ⟨?_, balance.confirmed, balance.parts⟩
  rw [liveSlots_waiting kept.1.1.tabled, ← (kept.1.2 a m found).1]
  exact balance.whole

/-- Two parts, and twenty seconds later another pass. -/
def lateReceipt : World := scripted { maxMessageLength := 64 } [5, 6, 7]
  [1000000000000, 1000000000000, 1000000000000, 1000000000000, 1000000020001]

/-- The first part is confirmed, the second one lost and sent again. -/
theorem accepted_accounted_of_late : ∃ s,
    Run (step lateReceipt) (fun _ op => Proper op) (Started lateReceipt)
      [.periodic, .receipt 1 5, .send 1 0 (List.replicate 65 1) fun _ => 0] s ∧
    (s.heap 0).any (fun m => m.numConfirmed = 1 ∧ m.numLoss = 1) = true ∧ ∀ a m, s.heap a = some m →
      (liveSlots s a).card + confirmations s a + m.numLoss = acceptedCalls lateReceipt (ofMessage a) s.base ∧
      m.numConfirmed = confirmations s a % 2 ^ 32 ∧
      ∀ i, (part m i).timesSent = acceptedCalls lateReceipt (ofPart a i) s.base := by
  obtain ⟨s, run, checked⟩ := exists_run (step lateReceipt) (fun _ op => Proper op)
    [.send 1 0 (List.replicate 65 1) fun _ => 0, .receipt 1 5, .periodic]
    (fun s => (s.heap 0).any fun m => m.numConfirmed = 1 ∧ m.numLoss = 1)
    (started_initialState lateReceipt) (by decide +kernel)
  exact ⟨s, run, checked, accepted_accounted (increasing_scripted (by decide)) (by decide) run⟩

end Defragmenter.Conservation
