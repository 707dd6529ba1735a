import Defragmenter.Anchoring
import Defragmenter.Restored

/-! What the fragments that go out carry. A fragment's bytes are freed when it
is confirmed, by a receipt or by the loader; the loop behind `lastSent` and the
expiry pass do not look whether that has happened. A message is followed from
the moment it is split, in this process or from a stored row. -/
namespace Defragmenter.FragmentBytes
open Decimal Database Split Receipts Sender Moves Provenance Tracking Messages Anchoring Restart
open Restored Runs

/-- A process, and each message as `splitMessage` built it, by its address. -/
structure Ledger where
  state : State
  originals : Nat → Option MsgOutbound

/-- What `splitMessage` makes of a message that is sent in this state. -/
def original (w : World) (s : State) (message : List UInt8) : Option MsgOutbound :=
  (splitMessage s.markerMaxSizeEver message w.params.maxMessageLength (generateMsgId w s).1).toOption

/-- A message that is sent now gets the address `fresh`, if it gets one. -/
def enter (w : World) (l : Ledger) : Op → Nat → Option MsgOutbound
  | .send _ _ message _ => Function.update l.originals l.state.fresh (original w l.state message)
  | _ => l.originals

def ledgerStep (w : World) (op : Op) (l : Ledger) : Except Fault Ledger := do
  let state ← step w op l.state
  pure { state, originals := enter w l op }

/-- A process that was just initialized over any stored rows. -/
def Begun (w : World) (l : Ledger) : Prop :=
  ∃ db : Db, initializeBoth w { db } = .ok l.state ∧
    l.originals = fun a => (keptRows w (stmtSelectFragmentedOutboundPending db))[a]?.bind fun p =>
      (splitMessage 0 p.message w.params.maxMessageLength p.id).toOption

/-- If the call is for a fragment, it passes what `splitMessage` built as that fragment. -/
def Unspoiled (originals : Nat → Option MsgOutbound) (call : BaseCall) : Prop :=
  ∀ a partNo, call.part = some (a, partNo) → ∃ built, originals a = some built ∧ 0 < partNo ∧
    partNo ≤ built.numParts ∧ call.data = (part built (partNo - 1)).data ∧
    call.length = (part built (partNo - 1)).length

/-- The parts that the loop over `count` of them from `i` on comes to, `calls`
calls of the base library having been made and `transit` parts being on their way. -/
def comesTo (w : World) : Nat → Nat → Nat → Nat → List Nat
  | 0, _, _, _ => []
  | count + 1, i, calls, transit =>
    if transit < w.params.fragmentsAtATime then
      i :: comesTo w count (i + 1) (calls + 1)
        (if w.answer calls = 0 then transit else (transit + 1) % 2 ^ 32)
    else []

/-- `msgSendNextParts`, going on behind `lastSent`, comes to no confirmed part. -/
def Clear (w : World) (calls : Nat) (m : MsgOutbound) : Prop :=
  ∀ i ∈ comesTo w (m.numParts - (m.lastSent + 1)) (m.lastSent + 1) calls m.numTransit,
    (part m i).confirmed = false

instance (w : World) (calls : Nat) (m : MsgOutbound) : Decidable (Clear w calls m) :=
  inferInstanceAs (Decidable (∀ i ∈ comesTo w _ _ _ _, _))

/-- So it is whenever one of these messages is served. -/
def ClearAll (w : World) : List Nat → State → Prop
  | [], _ => True
  | msg :: rest, s =>
    (w.online s.polls = true → ∀ m ∈ s.heap msg, Clear w s.base.length m) ∧
      ∀ s' ∈ (serve w s msg).toOption, ClearAll w rest s'

instance decidableClearAll (w : World) : ∀ msgs s, Decidable (ClearAll w msgs s)
  | [], _ => .isTrue trivial
  | msg :: rest, s =>
    have := fun s' => decidableClearAll w rest s'
    inferInstanceAs (Decidable ((_ → _) ∧ ∀ s' ∈ (serve w s msg).toOption, _))

/-- Every record that has expired is one for an unconfirmed part of a message that exists. -/
def ExpiresUnconfirmed (w : World) (now : Nat) (s : State) : Prop :=
  ∀ k < s.receipts.hi, expired w now (s.receipts.receipts k) = true →
    ∃ m ∈ s.heap (s.receipts.receipts k).msg,
      (part m ((s.receipts.receipts k).partNo - 1)).confirmed = false

instance (w : World) (now : Nat) (s : State) : Decidable (ExpiresUnconfirmed w now s) :=
  inferInstanceAs (Decidable (∀ k < s.receipts.hi, _ → _))

/-- No loop comes to a confirmed part, and no record that is followed is one of
a message that is gone or, in an expiry pass, of a confirmed part. -/
def Guarded (w : World) (s : State) : Op → Prop
  | .send .. => True
  | .receipt _ messageId => messageId ≠ 0 ∧ ∀ j ∈ s.receipts.findReceipt messageId,
      s.receipts.key j = messageId → ∃ m ∈ s.heap (s.receipts.receipts j).msg,
        let m := partConfirmed m (s.receipts.receipts j).partNo
        m.numConfirmed < m.numParts → w.online s.polls = true → Clear w s.base.length m
  | .periodic => (s.receipts.num ≠ 0 → ExpiresUnconfirmed w (w.clock s.ticks) s) ∧
      ∀ s₁ ∈ (resendExpiredReceipts w s).toOption, ClearAll w s₁.msgsOutbound s₁

instance {w : World} {s : State} : DecidablePred (Guarded w s) := fun op =>
  match op with
  | .send .. => .isTrue trivial
  | .receipt .. => inferInstanceAs (Decidable (_ ≠ 0 ∧ ∀ j ∈ s.receipts.findReceipt _, _ → _))
  | .periodic => inferInstanceAs (Decidable ((_ → _) ∧ ∀ s₁ ∈ (resendExpiredReceipts w s).toOption, _))

variable {w : World} {originals : Nat → Option MsgOutbound} {s s' : State} {m m' built : MsgOutbound}
  {msg i : Nat}

/-! ## The loop behind `lastSent` -/

theorem le_of_comesTo {count : Nat} : ∀ {i calls transit j : Nat},
    j ∈ comesTo w count i calls transit → i ≤ j ∧ j < i + count := by
  induction count with
  | zero =>
    intro i calls transit j member
    cases member
  | succ count ih =>
    intro i calls transit j member
    rw [comesTo] at member
    split at member
    · rcases List.mem_cons.mp member with rfl | later
      · omega
      · have := ih later
        omega
    · cases member

theorem partCall_behind {j receipt : Nat} (before : i < j) :
    partCall msg { partSent m i receipt with lastSent := i } j = partCall msg m j := by
  have same : (partSent m i receipt).fragments.getD j {} = m.fragments.getD j {} := by
    simp [partSent, List.getD_eq_getElem?_getD, show i ≠ j by omega]
  simp only [partCall]
  rw [same]
  rfl

/-- The loop that moves `lastSent` along calls the base library for each part it comes to. -/
theorem sendFrom_base {count : Nat} : ∀ {i : Nat} {s : State} {m : MsgOutbound},
    s.heap msg = some m → sendFrom w msg count i s = .ok s' →
      s'.base = s.base ++ (comesTo w count i s.base.length m.numTransit).map (partCall msg m) := by
  induction count with
  | zero =>
    intro i s m found ran
    cases ran
    simp [comesTo]
  | succ count ih =>
    intro i s m found ran
    rw [sendFrom_succ found] at ran
    rw [comesTo]
    split at ran
    · rename_i room
      rw [if_pos room, List.map_cons]
      split at ran
      · rename_i refused
        have grown : (refusedState s msg m i).base.length = s.base.length + 1 := by simp [refusedState]
        have found' : (refusedState s msg m i).heap msg = some m := found
        rw [ih found' ran, grown, if_pos refused]
        simp [refusedState]
      · rename_i accepted
        have grown : (sentState w s msg m i { partSent m i (w.answer s.base.length) with
            lastSent := i }).base.length = s.base.length + 1 := by
          simp [sentState]
        rw [ih sentState_heap ran, grown, if_neg accepted]
        have same : (comesTo w count (i + 1) (s.base.length + 1) ((m.numTransit + 1) % 2 ^ 32)).map
            (partCall msg { partSent m i (w.answer s.base.length) with lastSent := i }) =
            (comesTo w count (i + 1) (s.base.length + 1) ((m.numTransit + 1) % 2 ^ 32)).map
              (partCall msg m) :=
          List.map_congr_left fun j member => partCall_behind (Nat.lt_of_succ_le (le_of_comesTo member).1)
        change _ ++ List.map _ (comesTo w count (i + 1) (s.base.length + 1) ((m.numTransit + 1) % 2 ^ 32)) = _
        rw [same]
        simp [sentState]
    · rename_i full
      cases ran
      simp [full]

/-! ## Messages keep what they were built from -/

/-- The fragments that are not confirmed are those of the built message. -/
structure Copies (built m : MsgOutbound) : Prop where
  numParts : m.numParts = built.numParts
  fragments : ∀ i, (part m i).confirmed = false →
    (part m i).data = (part built i).data ∧ (part m i).length = (part built i).length

/-- Every message is known, and a copy of the one that was built. -/
def Copied (originals : Nat → Option MsgOutbound) (s : State) : Prop :=
  ∀ a m, s.heap a = some m → ∃ built, originals a = some built ∧ Copies built m

theorem Copies.of_fragments (copies : Copies built m) (numParts : m'.numParts = m.numParts)
    (kept : ∀ i, (part m' i).confirmed = false → (part m i).confirmed = false ∧
      (part m' i).data = (part m i).data ∧ (part m' i).length = (part m i).length) :
    Copies built m' where
  numParts := numParts.trans copies.numParts
  fragments i unconfirmed := by
    obtain ⟨before, data, length⟩ := kept i unconfirmed
    obtain ⟨builtData, builtLength⟩ := copies.fragments i before
    exact ⟨data.trans builtData, length.trans builtLength⟩

theorem Copies.sent (copies : Copies built m) (i receipt : Nat) : Copies built (partSent m i receipt) := by
  refine copies.of_fragments rfl fun k unconfirmed => ?_
  simp only [Moves.part, partSent, List.getD_eq_getElem?_getD, List.getElem?_modify] at unconfirmed ⊢
  cases at_k : m.fragments[k]? with
  | none => exact ⟨rfl, rfl, rfl⟩
  | some f =>
    rw [at_k] at unconfirmed
    by_cases same : i = k <;> simp_all

theorem Copies.sentLast (copies : Copies built m) (i receipt : Nat) :
    Copies built { partSent m i receipt with lastSent := i } := by
  obtain ⟨numParts, fragments⟩ := copies.sent i receipt
  exact ⟨numParts, fragments⟩

theorem Copies.lost (copies : Copies built m) : Copies built (partLost m) := by
  obtain ⟨numParts, fragments⟩ := copies
  exact ⟨numParts, fragments⟩

theorem Copies.confirmed (copies : Copies built m) (partNo : Nat) :
    Copies built (partConfirmed m partNo) := by
  refine copies.of_fragments rfl fun k unconfirmed => ?_
  simp only [Moves.part, partConfirmed, List.getD_eq_getElem?_getD, List.getElem?_modify] at unconfirmed ⊢
  cases at_k : m.fragments[k]? with
  | none => exact ⟨rfl, rfl, rfl⟩
  | some f =>
    rw [at_k] at unconfirmed
    by_cases same : partNo - 1 = k <;> simp_all

theorem Copied.frame (copied : Copied originals s) (heap : s'.heap = s.heap) : Copied originals s' := by
  intro a m here
  exact copied a m (heap ▸ here)

theorem Copied.update (copied : Copied originals s) (found : s.heap msg = some m)
    (copies : ∀ built, Copies built m → Copies built m')
    (heap : s'.heap = Function.update s.heap msg (some m')) : Copied originals s' := by
  intro a m₁ here
  rw [heap] at here
  obtain ⟨mine, same⟩ | ⟨_, here⟩ := heap_update_iff.mp here
  · cases same
    obtain ⟨built, known, before⟩ := copied msg m found
    exact ⟨built, mine ▸ known, copies built before⟩
  · exact copied a m₁ here

theorem Copied.erase (copied : Copied originals s)
    (heap : s'.heap = Function.update s.heap msg none) : Copied originals s' := by
  intro a m here
  rw [heap] at here
  obtain ⟨_, none⟩ | ⟨_, here⟩ := heap_update_iff.mp here
  · cases none
  · exact copied a m here

theorem Copied.move {label : Label} {v v' : View} (copied : Copied originals v.s) (move : Move w label v v')
    (later : label ≠ .form) : Copied originals v'.s := by
  cases move with
  | begun | opened | dropped => exact absurd rfl later
  | idle | short | passed | firstRefused | nextRefused | failedRefused | cleared => exact copied.frame rfl
  | firstSent found | nextSent found => exact copied.update found (fun _ copies => copies.sentLast _ _) rfl
  | failedSent found => exact copied.update found (fun _ copies => copies.sent _ _) rfl
  | lost _ _ found => exact copied.update found (fun _ copies => copies.lost) rfl
  | @resent s now j m _ _ found =>
    have heap : ∀ m', Function.update (Function.update s.heap (s.receipts.receipts j).msg
        (some (partLost m))) (s.receipts.receipts j).msg (some m') =
        Function.update s.heap (s.receipts.receipts j).msg (some m') :=
      fun m' => Function.update_idem ..
    exact copied.update found (fun _ copies => copies.lost.sent _ _) (heap _)
  | confirmed _ _ _ found => exact copied.update found (fun _ copies => copies.confirmed _) rfl
  | completed => exact copied.erase rfl

theorem Copied.chain {admitted : Label → Prop} {v v' : View} (copied : Copied originals v.s)
    (chain : Chain w admitted v v') (later : ∀ label, admitted label → label ≠ .form) :
    Copied originals v'.s :=
  chain.invariant (I := fun v => Copied originals v.s)
    (fun ok move before => before.move move (later _ ok)) copied

/-! ## Calls of the base library -/

def AllUnspoiled (originals : Nat → Option MsgOutbound) (s : State) : Prop :=
  ∀ call ∈ s.base, Unspoiled originals call

/-- A call for an unconfirmed part of a message. -/
theorem unspoiled_partCall (copied : Copied originals s) (found : s.heap msg = some m)
    (inside : i < m.numParts) (unconfirmed : (part m i).confirmed = false) :
    Unspoiled originals (partCall msg m i) := by
  intro a partNo mine
  cases mine
  obtain ⟨built, known, copies⟩ := copied _ m found
  obtain ⟨data, length⟩ := copies.fragments i unconfirmed
  exact ⟨built, known, Nat.succ_pos i, copies.numParts ▸ inside, data, length⟩

theorem AllUnspoiled.snoc {call : BaseCall} (before : AllUnspoiled originals s)
    (base : s'.base = s.base ++ [call]) (new : Unspoiled originals call) : AllUnspoiled originals s' := by
  intro other member
  rw [base] at member
  rcases List.mem_append.mp member with earlier | last
  · exact before other earlier
  · rw [List.mem_singleton.mp last]
    exact new

/-- The other loops look at a part before they send it. -/
theorem AllUnspoiled.move {label : Label} {v v' : View} (before : AllUnspoiled originals v.s)
    (copied : Copied originals v.s) (move : Move w label v v') (noCursor : ∀ msg, label ≠ .next msg)
    (noExpiry : NoExpiry label) : AllUnspoiled originals v'.s := by
  cases move with
  | nextRefused | nextSent => exact absurd rfl (noCursor _)
  | lost | resent => exact absurd rfl (noExpiry _)
  | idle | passed | begun | opened | dropped | confirmed | completed | cleared => exact before
  | short none =>
    refine before.snoc rfl fun a partNo mine => ?_
    rw [none] at mine
    cases mine
  | firstRefused found inside _ blank | firstSent found inside _ blank
  | failedRefused found inside _ blank | failedSent found inside _ blank =>
    exact before.snoc rfl (unspoiled_partCall copied found inside blank.2)

theorem AllUnspoiled.chain {admitted : Label → Prop} {v v' : View} (before : AllUnspoiled originals v.s)
    (copied : Copied originals v.s) (chain : Chain w admitted v v')
    (looking : ∀ label, admitted label → label ≠ .form ∧ (∀ msg, label ≠ .next msg) ∧ NoExpiry label) :
    AllUnspoiled originals v'.s := by
  have both := chain.invariant (I := fun v => Copied originals v.s ∧ AllUnspoiled originals v.s)
    (fun {label v v'} ok move held => ⟨held.1.move move (looking label ok).1,
      held.2.move held.1 move (looking label ok).2.1 (looking label ok).2.2⟩) ⟨copied, before⟩
  exact both.2

/-- A message is served, and the loop behind `lastSent` comes to no confirmed part. -/
theorem serve_unspoiled (before : AllUnspoiled originals s) (copied : Copied originals s)
    (clear : w.online s.polls = true → ∀ m ∈ s.heap msg, Clear w s.base.length m)
    (ran : serve w s msg = .ok s') : Copied originals s' ∧ AllUnspoiled originals s' := by
  simp only [serve, isFriendOnline] at ran
  cases online : w.online s.polls with
  | false =>
    simp only [online, Bool.false_eq_true, ↓reduceIte] at ran
    cases ran
    exact ⟨copied.frame rfl, before⟩
  | true =>
    simp only [online, ↓reduceIte] at ran
    obtain ⟨m, s₁, found, went, next, _, failed⟩ := msgSendNextParts_chain none ran
    have unconfirmed := clear online m found
    have polled : Copied originals { s with polls := s.polls + 1 } := copied.frame rfl
    have copied₁ : Copied originals s₁ := polled.chain next (by rintro _ rfl same; cases same)
    have unspoiled₁ : AllUnspoiled originals s₁ := by
      intro call member
      rw [sendFrom_base found went] at member
      rcases List.mem_append.mp member with earlier | later
      · exact before call earlier
      · obtain ⟨j, comes, rfl⟩ := List.mem_map.mp later
        have := le_of_comesTo comes
        exact unspoiled_partCall copied found (by omega) (unconfirmed j comes)
    refine ⟨copied₁.chain failed (by rintro _ rfl same; cases same), unspoiled₁.chain copied₁ failed ?_⟩
    rintro _ rfl
    exact ⟨Label.noConfusion, fun _ => Label.noConfusion, fun _ => Label.noConfusion⟩

theorem served_unspoiled {msgs : List Nat} : ∀ {s : State}, AllUnspoiled originals s →
    Copied originals s → ClearAll w msgs s → msgs.foldlM (serve w) s = .ok s' →
      Copied originals s' ∧ AllUnspoiled originals s' := by
  induction msgs with
  | nil =>
    intro s before copied _ ran
    cases ran
    exact ⟨copied, before⟩
  | cons msg rest ih =>
    intro s before copied clear ran
    rw [List.foldlM_cons] at ran
    obtain ⟨s₁, went, ran⟩ := bind_ok.mp ran
    obtain ⟨copied₁, unspoiled₁⟩ := serve_unspoiled before copied clear.1 went
    exact ih unspoiled₁ copied₁ (clear.2 s₁ (by rw [went]; rfl)) ran

/-! ## The expiry pass -/

theorem confirmed_partSent {receipt k : Nat} :
    (part (partSent m i receipt) k).confirmed = (part m k).confirmed := by
  simp only [Moves.part, partSent, List.getD_eq_getElem?_getD, List.getElem?_modify]
  cases m.fragments[k]? with
  | none => rfl
  | some f => by_cases same : i = k <;> simp [same]

theorem ExpiresUnconfirmed.retable {now : Nat} (expires : ExpiresUnconfirmed w now s)
    (heap : ∀ a m j, s.heap a = some m → (part m j).confirmed = false →
      ∃ m' ∈ s'.heap a, (part m' j).confirmed = false)
    (known : ∀ k < s'.receipts.hi, expired w now (s'.receipts.receipts k) = true →
      (∃ k' < s.receipts.hi, s'.receipts.receipts k = s.receipts.receipts k') ∨
        ∃ m' ∈ s'.heap (s'.receipts.receipts k).msg,
          (part m' ((s'.receipts.receipts k).partNo - 1)).confirmed = false) :
    ExpiresUnconfirmed w now s' := by
  intro k below late
  rcases known k below late with ⟨k', below', same⟩ | new
  · rw [same] at late ⊢
    obtain ⟨m, found, unconfirmed⟩ := expires k' below' late
    exact heap _ m _ found unconfirmed
  · exact new

/-- The message of a record loses a part, and other parts stay as they are. -/
theorem unconfirmed_update {a j : Nat} (found : s.heap msg = some m)
    (same : ∀ k, (part m' k).confirmed = (part m k).confirmed) {m₁ : MsgOutbound} (here : s.heap a = some m₁)
    (unconfirmed : (part m₁ j).confirmed = false) :
    ∃ m₂ ∈ Function.update s.heap msg (some m') a, (part m₂ j).confirmed = false := by
  by_cases mine : a = msg
  · subst mine
    rw [found] at here
    cases here
    exact ⟨m', Function.update_self .., (same j).trans unconfirmed⟩
  · exact ⟨m₁, (Function.update_of_ne mine _ _).trans here, unconfirmed⟩

theorem not_expired_cleared {now j : Nat} {t : ReceiptTable} : ¬ expired w now ((t.clear j).receipts j) = true := by
  intro late
  exact held_of_expired late (by simp [ReceiptTable.clear])

theorem ExpiresUnconfirmed.lost {now j : Nat} (expires : ExpiresUnconfirmed w now s)
    (found : s.heap (s.receipts.receipts j).msg = some m) :
    ExpiresUnconfirmed w now (lostState s j (s.receipts.receipts j).msg m) := by
  have flags : ∀ k, (part (partLost m) k).confirmed = (part m k).confirmed := fun _ => rfl
  refine expires.retable (fun a m₁ i here unconfirmed => unconfirmed_update found flags here unconfirmed)
    fun k below late => ?_
  have other : k ≠ j := by
    rintro rfl
    exact not_expired_cleared late
  exact .inl ⟨k, below, ReceiptTable.receipts_clear_ne other⟩

theorem ExpiresUnconfirmed.sent {now receipt timestamp : Nat} (expires : ExpiresUnconfirmed w now s)
    (found : s.heap msg = some m) (unconfirmed : (part m i).confirmed = false)
    (heap : s'.heap = Function.update s.heap msg (some (partSent m i receipt)))
    (receipts : s'.receipts = s.receipts.addReceipt ⟨receipt, msg, i + 1, timestamp⟩) :
    ExpiresUnconfirmed w now s' := by
  refine expires.retable (fun a m₁ j here unconfirmed => ?_) fun k below late => ?_
  · rw [heap]
    exact unconfirmed_update found (fun _ => confirmed_partSent) here unconfirmed
  · rw [receipts] at below late ⊢
    rcases ReceiptTable.receipts_below_hi s.receipts _ below with new | empty | ⟨k', below', old⟩
    · right
      rw [new, heap]
      exact ⟨_, Function.update_self .., confirmed_partSent.trans unconfirmed⟩
    · rw [empty] at late
      exact absurd rfl (held_of_expired late)
    · exact .inl ⟨k', below', old⟩

/-- The computation does not end in an access to freed memory. -/
def Safe {α : Type} (r : Except Fault α) : Prop := r ≠ .error .useAfterFree

theorem safe_ok {α : Type} {a : α} : Safe (.ok a) := by simp [Safe]

theorem safe_error {α : Type} {fault : Fault} (other : fault ≠ .useAfterFree) :
    Safe (.error fault : Except Fault α) :=
  fun same => other (Except.error.inj same)

/-- An expiry pass sends unconfirmed parts only, and follows no record to a message that is gone. -/
theorem resendFrom_unspoiled {now fuel : Nat} : ∀ {i : Nat} {s : State}, Issued w s →
    Copied originals s → AllUnspoiled originals s → ExpiresUnconfirmed w now s →
      Safe (resendFrom w now fuel i s) ∧
        ∀ s', resendFrom w now fuel i s = .ok s' → Copied originals s' ∧ AllUnspoiled originals s' := by
  induction fuel with
  | zero =>
    intro i s _ _ _ _
    refine ⟨safe_error (by decide), fun s' ran => ?_⟩
    cases ran
  | succ fuel ih =>
    intro i s issued copied before expires
    by_cases inside : i < s.receipts.hi
    · by_cases late : expired w now (s.receipts.receipts i) = true
      · obtain ⟨m, found, unconfirmed⟩ := expires i inside late
        have held : s.receipts.key i ≠ 0 := held_of_expired late
        have range := issued.part held found
        have lost : (lostState s i (s.receipts.receipts i).msg m).heap (s.receipts.receipts i).msg =
            some (partLost m) := Function.update_self ..
        have copiedLost : Copied originals (lostState s i (s.receipts.receipts i).msg m) :=
          copied.update found (fun _ copies => copies.lost) rfl
        have expiresLost := expires.lost found
        have call : Unspoiled originals (partCall (s.receipts.receipts i).msg (partLost m)
            ((s.receipts.receipts i).partNo - 1)) :=
          unspoiled_partCall copiedLost lost (by change _ < m.numParts; omega) unconfirmed
        rw [resendFrom_late inside late found]
        split
        · rename_i refused
          have move : Move w (.expiry now) ⟨s, none, none⟩ _ := .lost held late found refused
          exact ih (issued.move move) (copied.move move Label.noConfusion) (before.snoc rfl call) (expiresLost.retable
            (fun a m₁ j here unconfirmed => ⟨m₁, here, unconfirmed⟩) fun k below _ => .inl ⟨k, below, rfl⟩)
        · rename_i accepted
          have move : Move w (.expiry now) ⟨s, none, none⟩ _ := .resent held late found accepted
          exact ih (issued.move move) (copied.move move Label.noConfusion) (before.snoc rfl call)
            (expiresLost.sent lost unconfirmed rfl rfl)
      · simp only [resendFrom, if_pos inside, if_neg late]
        exact ih issued copied before expires
    · simp only [resendFrom, if_neg inside]
      refine ⟨safe_ok, fun s' ran => ?_⟩
      cases ran
      exact ⟨copied, before⟩

/-! ## Calls that follow no freed message -/

theorem Safe.bind {α β : Type} {x : Except Fault α} {f : α → Except Fault β} (first : Safe x)
    (rest : ∀ a, x = .ok a → Safe (f a)) : Safe (x >>= f) := by
  cases x with
  | error fault => exact fun same => first (congrArg Except.error (Except.error.inj same))
  | ok a => exact rest a rfl

theorem safe_of_returns {α : Type} {r : Except Fault α} (returns : ∃ a, r = .ok a) : Safe r := by
  obtain ⟨a, rfl⟩ := returns
  exact safe_ok

theorem splitMessage_safe {big maxLength id : Nat} {message : List UInt8} :
    Safe (splitMessage big message maxLength id) := by
  unfold splitMessage
  dsimp only
  split
  · exact safe_error (by decide)
  · split <;> first | exact safe_ok | exact safe_error (by decide)

theorem avoidPending_safe {params : Params} {pending : List Nat} {fuel : Nat} :
    ∀ {lastReceipt : Nat}, Safe (avoidPending params pending fuel lastReceipt) := by
  induction fuel with
  | zero => exact safe_error (by decide)
  | succ fuel ih =>
    intro lastReceipt
    rw [avoidPending]
    split
    · exact ih
    · exact safe_ok

theorem insertRow_safe {ρ : Type} {table : AList fun _ : Key => ρ} {key : Key} {row : ρ} :
    Safe (insertRow table key row) := by
  unfold insertRow
  split <;> first | exact safe_ok | exact safe_error (by decide)

theorem insertOutbound_safe {limit : BlobLimit} {db : Db} {friendNumber id tm numParts receipt : Nat}
    {type : Int} {data : List UInt8} :
    Safe (dbInsertOutboundMessage limit db friendNumber type id tm numParts data receipt) := by
  refine insertRow_safe.bind fun table _ => ?_
  dsimp only
  split
  · exact safe_error (by decide)
  · refine Safe.bind ?_ fun blob _ => ?_
    · unfold zeroblob
      split <;> first | exact safe_ok | exact safe_error (by decide)
    · split
      · exact safe_error (by decide)
      · exact insertRow_safe.bind fun rows _ => safe_ok

theorem partConfirmed_safe {db : Db} {friendNumber id partNo tm : Nat} :
    Safe (dbOutboundPartConfirmed db friendNumber id partNo tm) := by
  unfold dbOutboundPartConfirmed
  dsimp only
  split
  · exact safe_error (by decide)
  · split
    · exact safe_error (by decide)
    · split
      · exact safe_error (by decide)
      · refine Safe.bind ?_ fun blob _ => Safe.bind ?_ fun db _ => safe_ok
        · unfold writeBlob
          split <;> first | exact safe_ok | exact safe_error (by decide)
        · unfold updateFragmentedMetaDone
          split <;> first | exact safe_ok | exact safe_error (by decide)

theorem send_safe {friendNumber : Nat} {type : Int} {message : List UInt8} {beyond : Memory} :
    Safe (step w (.send friendNumber type message beyond) s) := by
  suffices returns : Safe (friendSendMessage w s friendNumber type message beyond) by
    refine returns.bind fun r _ => ?_
    obtain ⟨s', receipt⟩ := r
    exact safe_ok
  unfold friendSendMessage
  split
  · exact safe_ok
  · split
    · exact safe_ok
    · refine splitMessage_safe.bind fun m split => ?_
      have found : (begunState w s friendNumber m).heap s.fresh = some { m with friendNumber } := by
        simp [begunState]
      obtain ⟨s₁, m₁, went, found₁⟩ := @sendFrom_returns w s.fresh m.numParts 0 _ _ found
      refine (safe_of_returns ⟨s₁, went⟩).bind fun s₂ same => ?_
      have same : s₁ = s₂ := Except.ok.inj (went.symm.trans same)
      subst same
      refine (safe_of_returns ⟨m₁, msgAt_ok.mpr found₁⟩).bind fun m₂ _ => ?_
      split
      · refine Safe.bind (avoidPending_safe.bind fun r _ => safe_ok) fun r _ => ?_
        exact Safe.bind (insertOutbound_safe.bind fun db _ => safe_ok) fun s _ => safe_ok
      · exact safe_ok

theorem proceed_safe (found : s.heap msg = some m) : Safe (proceed w s msg m') := by
  unfold proceed
  split
  · exact safe_of_returns (serve_returns ⟨m, found⟩)
  · exact safe_of_returns ⟨_, bind_ok.mpr ⟨m, msgAt_ok.mpr found, rfl⟩⟩

theorem receipt_safe {friendNumber messageId : Nat} (guarded : Guarded w s (.receipt friendNumber messageId)) :
    Safe (step w (.receipt friendNumber messageId) s) := by
  suffices returns : Safe (tryProcessReceipt w s messageId) by
    refine returns.bind fun r _ => ?_
    obtain ⟨s', processed⟩ := r
    cases processed <;> exact safe_ok
  by_cases known : ∃ j, s.receipts.findReceipt messageId = some j ∧ s.receipts.key j = messageId
  · obtain ⟨j, lookup, held⟩ := known
    obtain ⟨m, found, _⟩ := guarded.2 j lookup held
    rw [tryProcessReceipt_found lookup held]
    refine (safe_of_returns ⟨m, msgAt_ok.mpr found⟩).bind fun m₁ _ => ?_
    refine partConfirmed_safe.bind fun db _ => Safe.bind ?_ fun s₁ _ => safe_ok
    have here : (confirmedState s j m₁ db).heap (s.receipts.receipts j).msg =
        some (partConfirmed m₁ (s.receipts.receipts j).partNo) := Function.update_self ..
    exact proceed_safe here
  · have missing : NotFound s.receipts messageId := fun j lookup held => known ⟨j, lookup, held⟩
    exact safe_of_returns ⟨_, tryProcessReceipt_missing missing⟩

/-! ## Runs -/

structure Faithful (w : World) (l : Ledger) : Prop where
  issued : Issued w l.state
  linked : Linked ⟨l.state, none, none⟩
  copied : Copied l.originals l.state
  unspoiled : AllUnspoiled l.originals l.state

variable {l l' : Ledger}

theorem faithful_begun (begun : Begun w l) : Faithful w l := by
  obtain ⟨db, started, known⟩ := begun
  have loading := loading_started started
  refine ⟨loading.issued, loading.linked, fun a m found => ?_, fun call member => ?_⟩
  · obtain ⟨p, _, at_a, kept⟩ := loading.row found
    obtain ⟨built, split, resumes⟩ := resumes_of_loaded kept
    refine ⟨built, ?_, resumes.numParts, fun i unconfirmed => ?_⟩
    · rw [known]
      dsimp only
      rw [at_a, Option.bind_some, split]
      rfl
    · rw [resumes.part i unconfirmed]
      exact ⟨rfl, rfl⟩
  · rw [loading.base] at member
    cases member

/-- What is entered now is about an address that nothing has yet. -/
theorem enter_below {op : Op} {a : Nat} (below : a < l.state.fresh) :
    enter w l op a = l.originals a := by
  cases op with
  | send => exact Function.update_of_ne (Nat.ne_of_lt below) _ _
  | receipt | periodic => rfl

theorem Faithful.entered (faithful : Faithful w l) (op : Op) :
    Copied (enter w l op) l.state ∧ AllUnspoiled (enter w l op) l.state := by
  refine ⟨fun a m found => ?_, fun call member a partNo mine => ?_⟩
  · rw [enter_below (faithful.issued.below found)]
    exact faithful.copied a m found
  · obtain ⟨i, at_i⟩ := List.getElem?_of_mem member
    rw [enter_below (faithful.issued.called at_i mine).1]
    exact faithful.unspoiled call member a partNo mine

/-- The first window of a long message, which is entered at its address. -/
theorem longSend_unspoiled {friendNumber : Nat} {type : Int} {message : List UInt8}
    (copied : Copied originals s) (before : AllUnspoiled originals s)
    (known : originals s.fresh = original w s message)
    (sends : LongSend w friendNumber type message s s') :
    Copied originals s' ∧ AllUnspoiled originals s' := by
  have window : ∀ {m s₁}, splitMessage s.markerMaxSizeEver message w.params.maxMessageLength
      (max (w.clock s.ticks) (s.lastMsgId + 1)) = .ok m →
      Chain w (· = .first) ⟨begunState w s friendNumber m, none, some (s.fresh, message)⟩
        ⟨s₁, none, some (s.fresh, message)⟩ → Copied originals s₁ ∧ AllUnspoiled originals s₁ := by
    intro m s₁ split chain
    have begun : Copied originals (begunState w s friendNumber m) := by
      intro a m' here
      obtain ⟨rfl, same⟩ | ⟨_, here⟩ := heap_update_iff.mp here
      · cases same
        refine ⟨m, ?_, rfl, fun i _ => ⟨rfl, rfl⟩⟩
        rw [known]
        change (splitMessage s.markerMaxSizeEver message w.params.maxMessageLength
          (max (w.clock s.ticks) (s.lastMsgId + 1))).toOption = _
        rw [split]
        rfl
      · exact copied a m' here
    have unspoiled : AllUnspoiled originals (begunState w s friendNumber m) := before
    refine ⟨begun.chain chain (by rintro _ rfl same; cases same), unspoiled.chain begun chain ?_⟩
    rintro _ rfl
    exact ⟨Label.noConfusion, fun _ => Label.noConfusion, fun _ => Label.noConfusion⟩
  cases sends with
  | opened split _ chain found _ _ _ _ same =>
    obtain ⟨copied₁, unspoiled₁⟩ := window split chain
    subst same
    refine ⟨copied₁.update found (fun built copies => ?_) rfl, unspoiled₁⟩
    exact ⟨copies.numParts, copies.fragments⟩
  | dropped split _ chain _ _ same =>
    obtain ⟨copied₁, unspoiled₁⟩ := window split chain
    subst same
    exact ⟨copied₁.erase rfl, unspoiled₁⟩

theorem receipt_unspoiled {friendNumber messageId : Nat} (copied : Copied originals s)
    (before : AllUnspoiled originals s) (guarded : Guarded w s (.receipt friendNumber messageId))
    (ran : step w (.receipt friendNumber messageId) s = .ok s') :
    Copied originals s' ∧ AllUnspoiled originals s' := by
  obtain ⟨⟨s₁, processed⟩, tried, ran⟩ := bind_ok.mp ran
  have after : Copied originals s₁ ∧ AllUnspoiled originals s₁ := by
    by_cases known : ∃ j, s.receipts.findReceipt messageId = some j ∧ s.receipts.key j = messageId
    · obtain ⟨j, lookup, held⟩ := known
      obtain ⟨m, found, clear⟩ := guarded.2 j lookup held
      have found : s.heap (s.receipts.receipts j).msg = some m := found
      rw [tryProcessReceipt_found lookup held] at tried
      obtain ⟨m', found', tried⟩ := bind_ok.mp tried
      have same := found.symm.trans (msgAt_ok.mp found')
      cases same
      obtain ⟨db, stored, tried⟩ := bind_ok.mp tried
      obtain ⟨s₂, went, tried⟩ := bind_ok.mp tried
      cases tried
      have confirmed : Copied originals (confirmedState s j m db) :=
        copied.update found (fun _ copies => copies.confirmed _) rfl
      have unspoiled : AllUnspoiled originals (confirmedState s j m db) := before
      have here : (confirmedState s j m db).heap (s.receipts.receipts j).msg =
          some (partConfirmed m (s.receipts.receipts j).partNo) := Function.update_self ..
      suffices Copied originals s₂ ∧ AllUnspoiled originals s₂ by
        exact ⟨this.1.frame rfl, this.2⟩
      unfold proceed at went
      split at went
      · rename_i more
        refine serve_unspoiled unspoiled confirmed (fun online m' found' => ?_) went
        have same := here.symm.trans found'
        cases same
        exact clear more online
      · obtain ⟨m', found', went⟩ := bind_ok.mp went
        cases went
        exact ⟨confirmed.erase rfl, unspoiled⟩
    · have missing : NotFound s.receipts messageId := fun j lookup held => known ⟨j, lookup, held⟩
      rw [tryProcessReceipt_missing missing] at tried
      cases tried
      exact ⟨copied, before⟩
  dsimp only at ran
  split at ran
  · cases ran
    exact after
  · cases ran
    exact ⟨after.1.frame rfl, after.2⟩

/-- What the expiry pass leaves is linked as before. -/
theorem linked_expires (issued : Issued w s) (linked : Linked ⟨s, none, none⟩)
    (expires : Expires w s s') : Linked ⟨s', none, none⟩ := by
  have both := expires.chain.invariant (I := fun v => Issued w v.s ∧ Linked v)
    (fun _ move held => ⟨held.1.move move, held.2.move held.1 move⟩) ⟨issued, linked⟩
  exact both.2

theorem expiry_unspoiled (issued : Issued w s) (copied : Copied originals s)
    (before : AllUnspoiled originals s)
    (expires : s.receipts.num ≠ 0 → ExpiresUnconfirmed w (w.clock s.ticks) s) :
    Safe (resendExpiredReceipts w s) ∧ ∀ s', resendExpiredReceipts w s = .ok s' →
      Copied originals s' ∧ AllUnspoiled originals s' := by
  unfold resendExpiredReceipts
  split
  · refine ⟨safe_ok, fun s' ran => ?_⟩
    cases ran
    exact ⟨copied, before⟩
  · rename_i live
    have ticked : Issued w { s with ticks := s.ticks + 1 } := issued.frame rfl rfl rfl rfl
    exact resendFrom_unspoiled ticked (copied.frame rfl) before (expires live)

theorem periodic_unspoiled (issued : Issued w s) (copied : Copied originals s)
    (before : AllUnspoiled originals s) (guarded : Guarded w s .periodic)
    (ran : step w .periodic s = .ok s') : Copied originals s' ∧ AllUnspoiled originals s' := by
  obtain ⟨s₁, resent, ran⟩ := bind_ok.mp ran
  obtain ⟨copied₁, unspoiled₁⟩ := (expiry_unspoiled issued copied before guarded.1).2 s₁ resent
  exact served_unspoiled unspoiled₁ copied₁ (guarded.2 s₁ (by rw [resent]; rfl)) ran

theorem periodic_safe (issued : Issued w s) (linked : Linked ⟨s, none, none⟩) (copied : Copied originals s)
    (before : AllUnspoiled originals s) (guarded : Guarded w s .periodic) : Safe (step w .periodic s) := by
  refine (expiry_unspoiled issued copied before guarded.1).1.bind fun s₁ resent => ?_
  have linked₁ := linked_expires issued linked (resendExpiredReceipts_expires resent)
  exact safe_of_returns (sendMore_returns linked₁.held)

theorem proper_of_guarded {op : Op} (guarded : Guarded w s op) : Proper op := by
  cases op with
  | receipt => exact guarded.1
  | send | periodic => trivial

theorem Faithful.step {op : Op} (faithful : Faithful w l) (guarded : Guarded w l.state op)
    (ran : ledgerStep w op l = .ok l') : Faithful w l' := by
  obtain ⟨s', stepped, same⟩ := bind_ok.mp ran
  cases same
  have chain := step_chain (proper_of_guarded guarded) stepped
  have tracked := chain.invariant (I := fun v => Issued w v.s ∧ Linked v)
    (fun _ move held => ⟨held.1.move move, held.2.move held.1 move⟩) ⟨faithful.issued, faithful.linked⟩
  obtain ⟨copied, before⟩ := faithful.entered op
  suffices Copied (enter w l op) s' ∧ AllUnspoiled (enter w l op) s' by
    exact ⟨tracked.1, tracked.2, this.1, this.2⟩
  cases op with
  | send friendNumber type message beyond =>
    rcases send_cases stepped with rfl | ⟨call, none, rfl⟩ | ⟨_, sends⟩
    · exact ⟨copied, before⟩
    · refine ⟨copied.frame rfl, before.snoc rfl fun a partNo mine => ?_⟩
      rw [none] at mine
      cases mine
    · exact longSend_unspoiled copied before (Function.update_self ..) sends
  | receipt friendNumber messageId => exact receipt_unspoiled copied before guarded stepped
  | periodic => exact periodic_unspoiled faithful.issued copied before guarded stepped

/-- In every run from any stored rows in which no loop comes to a confirmed part
and no record of a confirmed part expires, each call for a fragment passes the
bytes that `splitMessage` built it from, and nothing follows a freed message. -/
theorem bytes_original {ops : List Op}
    (run : Run (ledgerStep w) (fun l op => Guarded w l.state op) (Begun w) ops l) :
    (∀ call ∈ l.state.base, Unspoiled l.originals call) ∧
      ∀ op, Guarded w l.state op → Safe (step w op l.state) := by
  have faithful : Faithful w l := run.invariant (I := Faithful w) (fun _ => faithful_begun)
    fun _ _ _ before guarded ran => before.step guarded ran
  refine ⟨faithful.unspoiled, fun op guarded => ?_⟩
  cases op with
  | send friendNumber type message beyond => exact send_safe
  | receipt friendNumber messageId => exact receipt_safe guarded
  | periodic =>
    exact periodic_safe faithful.issued faithful.linked faithful.copied faithful.unspoiled guarded

/-- What an earlier process left of two parts of which this one was confirmed. -/
def leftBehind (partNo : Nat) : Db :=
  ((recordTwoParts 0).toOption.bind fun r =>
    (dbOutboundPartConfirmed r.2 7 1234567890123 partNo 5).toOption).getD {}

/-- A process that is to send the rest. -/
def resuming : World := scripted { maxMessageLength := 100 } [7, 8] []

def resumed (partNo : Nat) : Ledger where
  state := (initializeBoth resuming { db := leftBehind partNo }).toOption.getD {}
  originals a := (keptRows resuming (stmtSelectFragmentedOutboundPending (leftBehind partNo)))[a]?.bind
    fun p => (splitMessage 0 p.message resuming.params.maxMessageLength p.id).toOption

theorem begun_resumed (partNo : Nat) : Begun resuming (resumed partNo) := by
  obtain ⟨s, ran, _⟩ := initializeBoth_adopted (w := resuming) (by decide) (by decide)
    (leftBehind partNo)
  have same : (resumed partNo).state = s := by
    simp only [resumed, ran]
    rfl
  exact ⟨leftBehind partNo, same ▸ ran, rfl⟩

/-- The first part was confirmed: the second goes out, and is confirmed. -/
theorem bytes_original_resumed : ∃ l,
    Run (ledgerStep resuming) (fun l op => Guarded resuming l.state op) (Begun resuming)
      [.receipt 7 7, .periodic] l ∧
    l.state.base.length = 1 ∧ (∀ call ∈ l.state.base, Unspoiled l.originals call) ∧
    Safe (step resuming .periodic l.state) := by
  obtain ⟨l, run, checked⟩ := exists_run (ledgerStep resuming)
    (fun l op => Guarded resuming l.state op) [.periodic, .receipt 7 7]
    (fun l => l.state.base.length = 1 ∧ Guarded resuming l.state .periodic) (begun_resumed 1)
    (by decide +kernel)
  obtain ⟨calls, guarded⟩ := of_decide_eq_true checked
  exact ⟨l, run, calls, (bytes_original run).1, (bytes_original run).2 .periodic guarded⟩

/-- The second part was confirmed, and the loop behind `lastSent` sends it once
more: the base library gets a null pointer and the length of the part. -/
theorem confirmed_part_sent : ∃ l,
    Run (ledgerStep resuming) (fun _ op => Proper op) (Begun resuming) [.periodic] l ∧
    ∃ call ∈ l.state.base, call.data = none ∧ call.length = 62 ∧ ¬ Unspoiled l.originals call := by
  obtain ⟨l, run, checked⟩ := exists_run (ledgerStep resuming) (fun _ op => Proper op) [.periodic]
    (fun l => ∃ call ∈ l.state.base, call.part = some (0, 2) ∧ call.data = none ∧ call.length = 62 ∧
      (l.originals 0).all fun built => (part built 1).data.isSome) (begun_resumed 2) (by decide +kernel)
  obtain ⟨call, member, mine, none, length, given⟩ := of_decide_eq_true checked
  refine ⟨l, run, call, member, none, length, fun unspoiled => ?_⟩
  obtain ⟨built, known, _, _, data, _⟩ := unspoiled 0 2 mine
  rw [known] at given
  change call.data = (part built 1).data at data
  rw [Option.all_some, ← data, none] at given
  cases given

end Defragmenter.FragmentBytes
