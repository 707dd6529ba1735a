import Defragmenter.Tracking

/-! What the sender counts. `msgSendNextParts` goes on behind `lastSent`
without looking at the parts it finds there, while sending what failed before
and expiry leave `lastSent` where it is. As long as nothing behind the cursor
was sent in one of these ways when the cursor is used, every fragment is waited
for at most once and every confirmation is counted once. -/
namespace Defragmenter.Accounting
open Database Split Receipts Sender Moves Provenance Tracking Runs

/-- The fragments with their `confirmed` flag set. -/
def confirmedParts (m : MsgOutbound) : Finset Nat :=
  (Finset.range m.numParts).filter fun i => (part m i).confirmed = true

/-- The slots that wait for receipts of the message. -/
def liveSlots (s : State) (msg : Nat) : Finset Nat :=
  (Finset.range s.receipts.hi).filter fun k =>
    s.receipts.lo ≤ k ∧ s.receipts.key k ≠ 0 ∧ (s.receipts.receipts k).msg = msg

/-- The sender's accounts are right. -/
structure Accounted (s : State) : Prop where
  confirmed : ∀ a m, s.heap a = some m → m.numConfirmed = m.fragments.countP (·.confirmed)
  once : ∀ j k, s.receipts.key j ≠ 0 → s.receipts.key k ≠ 0 →
    (∃ m, s.heap (s.receipts.receipts j).msg = some m) →
    (s.receipts.receipts j).msg = (s.receipts.receipts k).msg →
    (s.receipts.receipts j).partNo = (s.receipts.receipts k).partNo → j = k
  unconfirmed : ∀ k m, s.receipts.key k ≠ 0 → s.heap (s.receipts.receipts k).msg = some m →
    ∃ f, m.fragments[(s.receipts.receipts k).partNo - 1]? = some f ∧ f.confirmed = false
  within : ∀ a m, s.heap a = some m → m.numConfirmed + (liveSlots s a).card ≤ m.numParts

/-- Nothing behind the message's cursor is confirmed or waits for a receipt. -/
def CursorLeads (v : View) (msg : Nat) : Prop :=
  ∀ m ∈ v.s.heap msg, (∀ i < m.numParts, m.lastSent < i → (part m i).confirmed = false) ∧
    ∀ k < v.s.receipts.hi, Live v k → (v.s.receipts.receipts k).msg = msg →
      (v.s.receipts.receipts k).partNo ≤ m.lastSent + 1

/-- A live record is the one its fragment knows of, and confirmations are counted. -/
structure Owned (v : View) : Prop where
  owns : ∀ k m, Live v k → v.s.heap (v.s.receipts.receipts k).msg = some m →
    (part m ((v.s.receipts.receipts k).partNo - 1)).receipt = v.s.receipts.key k ∧
      (part m ((v.s.receipts.receipts k).partNo - 1)).confirmed = false
  counted : ∀ a m, v.s.heap a = some m → m.numConfirmed = (confirmedParts m).card

variable {w : World} {v v' : View} {label : Label} {s s' : State} {taken taken' : Option Nat}
  {forming forming' : Option (Nat × List UInt8)} {msg i : Nat} {m m' : MsgOutbound}

theorem confirmedParts_congr (numParts : m'.numParts = m.numParts)
    (same : ∀ k, (part m' k).confirmed = (part m k).confirmed) :
    confirmedParts m' = confirmedParts m := by
  simp only [confirmedParts, numParts, same]

/-- Two live records of one part of an existing message are one record. -/
theorem Owned.once (owned : Owned v) (tabled : Tabled v) {j k : Nat} (liveJ : Live v j)
    (liveK : Live v k) (found : v.s.heap (v.s.receipts.receipts j).msg = some m)
    (sameMsg : (v.s.receipts.receipts j).msg = (v.s.receipts.receipts k).msg)
    (samePart : (v.s.receipts.receipts j).partNo = (v.s.receipts.receipts k).partNo) : j = k := by
  have ownJ := (owned.owns j m liveJ found).1
  have ownK := (owned.owns k m liveK (sameMsg ▸ found)).1
  rw [samePart] at ownJ
  exact tabled.ordered.injective liveJ.1 (ownJ.symm.trans ownK)

theorem Owned.frame (owned : Owned ⟨s, taken, forming⟩) (heap : s'.heap = s.heap)
    (receipts : s'.receipts = s.receipts) : Owned ⟨s', taken, forming'⟩ := by
  obtain ⟨owns, counted⟩ := owned
  constructor <;> simp only [Live, heap, receipts] at * <;> assumption

/-- A part goes out that nobody waits for and that is not confirmed. -/
theorem Owned.sent (owned : Owned ⟨s, taken, forming⟩) (issued : Issued w s)
    (above : ∀ j, s.receipts.key j < w.answer s.base.length) (found : s.heap msg = some m)
    (sent : PartSent m m' i (w.answer s.base.length)) (unconfirmed : (part m i).confirmed = false)
    (free : ∀ k, Live ⟨s, taken, forming⟩ k → (s.receipts.receipts k).msg = msg →
      (s.receipts.receipts k).partNo ≠ i + 1) :
    Owned ⟨sentState w s msg m i m', taken, forming⟩ where
  owns k m₁ live here := by
    obtain ⟨held, untaken⟩ := live
    simp only [sentState_key above] at held
    simp only [sentState_receipts above, sentState_key above] at here ⊢
    by_cases new : k = s.receipts.hi
    · rw [if_pos new] at here ⊢
      obtain ⟨_, same⟩ | ⟨other, _⟩ := heap_update_iff.mp here
      · cases same
        rw [if_pos new, sent.part_eq]
        exact ⟨by simp, by simpa using unconfirmed⟩
      · exact absurd rfl other
    · rw [if_neg new] at held here ⊢
      rw [if_neg new]
      have live : Live ⟨s, taken, forming⟩ k := ⟨held, untaken⟩
      obtain ⟨mine, same⟩ | ⟨_, here⟩ := heap_update_iff.mp here
      · cases same
        have own := owned.owns k m live (mine ▸ found)
        have number := issued.part held (mine ▸ found)
        have different : (s.receipts.receipts k).partNo - 1 ≠ i := by
          have := free k live mine
          omega
        rw [sent.part_eq, if_neg different]
        exact own
      · exact owned.owns k m₁ live here
  counted a m₁ here := by
    obtain ⟨_, same⟩ | ⟨_, here⟩ := heap_update_iff.mp here
    · cases same
      rw [sent.numConfirmed, confirmedParts_congr sent.shape.numParts]
      · exact owned.counted msg m found
      · intro k
        rw [sent.part_eq]
        split
        · rename_i same
          rw [same]
        · rfl
    · exact owned.counted a m₁ here

/-- A record is taken out of the table. -/
theorem Owned.release (owned : Owned ⟨s, taken, forming⟩) (heap : s'.heap = s.heap)
    (kept : ∀ k, Live ⟨s', taken', forming'⟩ k → Live ⟨s, taken, forming⟩ k ∧
      s'.receipts.receipts k = s.receipts.receipts k) : Owned ⟨s', taken', forming'⟩ where
  owns k m₁ live here := by
    obtain ⟨live, same⟩ := kept k live
    have key : s'.receipts.key k = s.receipts.key k := congrArg ReceiptRecord.receipt same
    change s'.heap (s'.receipts.receipts k).msg = some m₁ at here
    change (part m₁ ((s'.receipts.receipts k).partNo - 1)).receipt = s'.receipts.key k ∧ _
    rw [heap, same] at here
    rw [same, key]
    exact owned.owns k m₁ live here
  counted a m₁ here := owned.counted a m₁ (heap ▸ here)

/-- A message changes without its fragments. -/
theorem Owned.update (owned : Owned ⟨s, taken, forming⟩) (found : s.heap msg = some m)
    (fragments : m'.fragments = m.fragments) (numParts : m'.numParts = m.numParts)
    (numConfirmed : m'.numConfirmed = m.numConfirmed)
    (heap : s'.heap = Function.update s.heap msg (some m'))
    (receipts : s'.receipts = s.receipts) : Owned ⟨s', taken, forming'⟩ where
  owns k m₁ live here := by
    change s'.receipts.key k ≠ 0 ∧ taken ≠ some k at live
    change s'.heap (s'.receipts.receipts k).msg = some m₁ at here
    change (part m₁ ((s'.receipts.receipts k).partNo - 1)).receipt = s'.receipts.key k ∧
      (part m₁ ((s'.receipts.receipts k).partNo - 1)).confirmed = false
    rw [receipts] at live here ⊢
    rw [heap] at here
    obtain ⟨mine, same⟩ | ⟨_, here⟩ := heap_update_iff.mp here
    · cases same
      rw [part, fragments]
      exact owned.owns k m live (mine ▸ found)
    · exact owned.owns k m₁ live here
  counted a m₁ here := by
    change s'.heap a = some m₁ at here
    rw [heap] at here
    obtain ⟨_, same⟩ | ⟨_, here⟩ := heap_update_iff.mp here
    · cases same
      rw [numConfirmed, confirmedParts_congr numParts fun k => by rw [part, fragments]; rfl]
      exact owned.counted msg m found
    · exact owned.counted a m₁ here

theorem Owned.erase (owned : Owned ⟨s, taken, forming⟩)
    (heap : s'.heap = Function.update s.heap msg none) (receipts : s'.receipts = s.receipts) :
    Owned ⟨s', taken, forming'⟩ where
  owns k m₁ live here := by
    change s'.receipts.key k ≠ 0 ∧ taken ≠ some k at live
    change s'.heap (s'.receipts.receipts k).msg = some m₁ at here
    change (part m₁ ((s'.receipts.receipts k).partNo - 1)).receipt = s'.receipts.key k ∧
      (part m₁ ((s'.receipts.receipts k).partNo - 1)).confirmed = false
    rw [receipts] at live here ⊢
    rw [heap] at here
    obtain ⟨_, none⟩ | ⟨_, here⟩ := heap_update_iff.mp here
    · cases none
    · exact owned.owns k m₁ live here
  counted a m₁ here := by
    change s'.heap a = some m₁ at here
    rw [heap] at here
    obtain ⟨_, none⟩ | ⟨_, here⟩ := heap_update_iff.mp here
    · cases none
    · exact owned.counted a m₁ here

/-- A message at a new address is not waited for. -/
theorem Owned.allocate (owned : Owned ⟨s, taken, forming⟩) (issued : Issued w s)
    (none : m.numConfirmed = 0) (blank : ∀ i, (part m i).confirmed = false)
    (heap : s'.heap = Function.update s.heap s.fresh (some m))
    (receipts : s'.receipts = s.receipts) : Owned ⟨s', taken, forming'⟩ where
  owns k m₁ live here := by
    change s'.receipts.key k ≠ 0 ∧ taken ≠ some k at live
    change s'.heap (s'.receipts.receipts k).msg = some m₁ at here
    change (part m₁ ((s'.receipts.receipts k).partNo - 1)).receipt = s'.receipts.key k ∧
      (part m₁ ((s'.receipts.receipts k).partNo - 1)).confirmed = false
    rw [receipts] at live here ⊢
    rw [heap] at here
    obtain ⟨new, _⟩ | ⟨_, here⟩ := heap_update_iff.mp here
    · obtain ⟨i, call, at_i, part, _⟩ := issued.recorded k live.1
      exact absurd (issued.called at_i part).1 (by omega)
    · exact owned.owns k m₁ live here
  counted a m₁ here := by
    change s'.heap a = some m₁ at here
    rw [heap] at here
    obtain ⟨_, same⟩ | ⟨_, here⟩ := heap_update_iff.mp here
    · cases same
      have empty : confirmedParts m = ∅ := by
        simp [confirmedParts, blank]
      rw [none, empty, Finset.card_empty]
    · exact owned.counted a m₁ here

/-- One more part is confirmed. -/
theorem confirmedParts_partConfirmed {p : Nat} (shaped : m.fragments.length = m.numParts)
    (inside : p - 1 < m.numParts) (unconfirmed : (part m (p - 1)).confirmed = false) :
    (confirmedParts (partConfirmed m p)).card = (confirmedParts m).card + 1 ∧
      (confirmedParts m).card < m.numParts := by
  have absent : p - 1 ∉ confirmedParts m := by
    simp [confirmedParts, unconfirmed]
  have grown : confirmedParts (partConfirmed m p) = insert (p - 1) (confirmedParts m) := by
    ext k
    simp only [confirmedParts, Finset.mem_filter, Finset.mem_range, Finset.mem_insert,
      part_partConfirmed (shaped ▸ inside : p - 1 < m.fragments.length)]
    by_cases same : k = p - 1
    · subst same
      simp only [↓reduceIte, true_or, and_true, iff_true]
      exact inside
    · simp only [same, ↓reduceIte, false_or]
      exact Iff.rfl
  have small : confirmedParts m ⊂ Finset.range m.numParts := by
    refine (Finset.ssubset_iff_of_subset (Finset.filter_subset _ _)).mpr ⟨p - 1, ?_, absent⟩
    exact Finset.mem_range.mpr inside
  have card := Finset.card_lt_card small
  rw [Finset.card_range] at card
  rw [grown, Finset.card_insert_of_notMem absent]
  exact ⟨rfl, card⟩

theorem Owned.confirmed {j : Nat} {db : Db} (owned : Owned ⟨s, none, none⟩)
    (orderly : Orderly w ⟨s, none, none⟩) (held : s.receipts.key j ≠ 0)
    (found : s.heap (s.receipts.receipts j).msg = some m) :
    Owned ⟨confirmedState s j m db, some j, none⟩ := by
  have number := orderly.issued.part held found
  have shaped := orderly.issued.shaped found
  have live : Live ⟨s, none, none⟩ j := ⟨held, by simp⟩
  have unconfirmed := (owned.owns j m live found).2
  have inside : (s.receipts.receipts j).partNo - 1 < m.numParts :=
    orderly.issued.index held found
  constructor
  · intro k m₁ liveK here
    have different : k ≠ j := fun same => liveK.2 (congrArg some same.symm)
    have liveK : Live ⟨s, none, none⟩ k := ⟨liveK.1, by simp⟩
    obtain ⟨mine, same⟩ | ⟨_, here⟩ := heap_update_iff.mp here
    · have mine : (s.receipts.receipts k).msg = (s.receipts.receipts j).msg := mine
      cases same
      have other : (s.receipts.receipts k).partNo ≠ (s.receipts.receipts j).partNo := by
        intro same
        have foundK : s.heap (s.receipts.receipts k).msg = some m := mine ▸ found
        exact different (owned.once orderly.tabled liveK live foundK mine same)
      have numberK := orderly.issued.part liveK.1 (mine ▸ found)
      have away : (s.receipts.receipts k).partNo - 1 ≠ (s.receipts.receipts j).partNo - 1 := by
        change 0 < (s.receipts.receipts j).partNo ∧ _ at number
        change 0 < (s.receipts.receipts k).partNo ∧ _ at numberK
        omega
      have same := part_partConfirmed (k := (s.receipts.receipts k).partNo - 1)
        (shaped.1 ▸ inside : (s.receipts.receipts j).partNo - 1 < m.fragments.length)
      rw [if_neg away] at same
      change (part (partConfirmed m _) ((s.receipts.receipts k).partNo - 1)).receipt = _ ∧
        (part (partConfirmed m _) ((s.receipts.receipts k).partNo - 1)).confirmed = false
      rw [same]
      exact owned.owns k m liveK (mine ▸ found)
    · exact owned.owns k m₁ liveK here
  · intro a m₁ here
    obtain ⟨_, same⟩ | ⟨_, here⟩ := heap_update_iff.mp here
    · cases same
      obtain ⟨card, small⟩ := confirmedParts_partConfirmed shaped.1 inside unconfirmed
      have counted := owned.counted _ m found
      have size := shaped.2
      rw [card]
      change (m.numConfirmed + 1) % 2 ^ 32 = _
      omega
    · exact owned.counted a m₁ here

/-- A message that goes on with a confirmation lacked more than the part confirmed. -/
theorem Owned.unfinished {j : Nat} (owned : Owned ⟨s, none, none⟩) (orderly : Orderly w ⟨s, none, none⟩)
    (held : s.receipts.key j ≠ 0) (found : s.heap (s.receipts.receipts j).msg = some m)
    (more : (partConfirmed m (s.receipts.receipts j).partNo).numConfirmed < m.numParts) :
    m.numConfirmed + 1 < m.numParts := by
  have shaped := orderly.issued.shaped found
  have own := owned.owns j m ⟨held, by simp⟩ found
  have inside : (s.receipts.receipts j).partNo - 1 < m.numParts :=
    orderly.issued.index held found
  have small := (confirmedParts_partConfirmed shaped.1 inside own.2).2
  rw [← owned.counted _ m found] at small
  change (m.numConfirmed + 1) % 2 ^ 32 < m.numParts at more
  omega

/-- What is live once slot `j` expired was live before, in another slot. -/
theorem live_lost {j k : Nat} (live : Live ⟨lostState s j msg m, none, none⟩ k) :
    Live ⟨s, none, none⟩ k ∧ k ≠ j ∧
      (lostState s j msg m).receipts.receipts k = s.receipts.receipts k := by
  have held : (s.receipts.clear j).key k ≠ 0 := live.1
  rw [ReceiptTable.key_clear] at held
  by_cases same : k = j
  · rw [if_pos same] at held
    exact absurd rfl held
  · rw [if_neg same] at held
    exact ⟨⟨held, by simp⟩, same, ReceiptTable.receipts_clear_ne same⟩

theorem Owned.lost {j : Nat} (owned : Owned ⟨s, none, none⟩) (found : s.heap msg = some m) :
    Owned ⟨lostState s j msg m, none, none⟩ := by
  have updated : Owned ⟨{ s with heap := Function.update s.heap msg (some (partLost m)) }, none, none⟩ := by
    have same : (partLost m).fragments = m.fragments := rfl
    exact owned.update found same rfl rfl rfl rfl
  refine updated.release rfl fun k live => ?_
  obtain ⟨live, _, same⟩ := live_lost live
  exact ⟨live, same⟩

/-- Nothing but going on behind the cursor can put the accounts out. -/
theorem Owned.move (owned : Owned v) (orderly : Orderly w v) (increasing : Increasing w)
    (other : ∀ msg, label ≠ .next msg) (move : Move w label v v') : Owned v' := by
  have free : ∀ {s : State} {forming : Option (Nat × List UInt8)} {taken : Option Nat} {msg i : Nat}
      {m : MsgOutbound}, Owned ⟨s, taken, forming⟩ → Issued w s → s.heap msg = some m → Blank m i →
      ∀ k, Live ⟨s, taken, forming⟩ k → (s.receipts.receipts k).msg = msg →
        (s.receipts.receipts k).partNo ≠ i + 1 := by
    intro s forming taken msg i m owned issued found blank k live mine same
    have own := (owned.owns k m live (mine ▸ found)).1
    change (part m ((s.receipts.receipts k).partNo - 1)).receipt = s.receipts.key k at own
    rw [same, Nat.add_sub_cancel, blank.1] at own
    exact live.1 own.symm
  cases move with
  | idle | short | passed | firstRefused | failedRefused => exact owned.frame rfl rfl
  | @begun s friendNumber message m _ split =>
    have unsent := unsent_of_split split
    have none : ({ m with friendNumber } : MsgOutbound).numConfirmed = 0 := unsent.numConfirmed
    exact owned.allocate orderly.issued none (fun i => (blank_of_unsent unsent i).2) rfl rfl
  | @opened s msg receipt type _ m _ found =>
    have same : ({ m with type, receipt } : MsgOutbound).fragments = m.fragments := rfl
    exact owned.update found same rfl rfl rfl rfl
  | dropped => exact owned.erase rfl rfl
  | @firstSent s msg i message m found inside _ blank _ accepted =>
    have inside : i < m.fragments.length := (orderly.issued.shaped found).1 ▸ inside
    exact owned.sent orderly.issued (orderly.above increasing accepted) found
      (partSent_sentLast inside) blank.2 (free owned orderly.issued found blank)
  | nextRefused | nextSent => exact absurd rfl (other _)
  | @failedSent s taken msg i m found inside _ blank accepted =>
    have inside : i < m.fragments.length := (orderly.issued.shaped found).1 ▸ inside
    exact owned.sent orderly.issued (orderly.above increasing accepted) found
      (partSent_partSent inside) blank.2 (free owned orderly.issued found blank)
  | @lost s now j m held _ found =>
    exact (owned.lost found).frame rfl rfl
  | @resent s now j m held _ found accepted =>
    have live : Live ⟨s, none, none⟩ j := ⟨held, by simp⟩
    have number := orderly.issued.part held found
    have inside : (s.receipts.receipts j).partNo - 1 < m.fragments.length :=
      orderly.issued.place held found
    have issued : Issued w s := orderly.issued
    have above := above_of_increasing increasing (issued.lost j found) accepted
    refine (owned.lost found).sent (issued.lost j found) above (Function.update_self ..)
      (partSent_partSent inside) (owned.owns j m live found).2 ?_
    intro k liveK mine same
    obtain ⟨liveK, different, kept⟩ := live_lost liveK
    rw [kept] at mine same
    have samePart : (s.receipts.receipts j).partNo = (s.receipts.receipts k).partNo := by
      change 0 < (s.receipts.receipts j).partNo ∧ _ at number
      omega
    exact different (owned.once orderly.tabled live liveK found mine.symm samePart).symm
  | confirmed nonzero _ held found => exact owned.confirmed orderly (held ▸ nonzero) found
  | completed => exact owned.erase rfl rfl
  | @cleared s _ _ j =>
    refine owned.release rfl fun k live => ?_
    have held : (if k = j then 0 else s.receipts.key k) ≠ 0 := by
      rw [← ReceiptTable.key_clear, ← ReceiptTable.key_trim]
      exact live.1
    by_cases same : k = j
    · rw [if_pos same] at held
      exact absurd rfl held
    · rw [if_neg same] at held
      refine ⟨⟨held, fun here => same (Option.some.inj here).symm⟩, ?_⟩
      change ((s.receipts.clear j).trim j).receipts k = _
      rw [ReceiptTable.receipts_trim, ReceiptTable.receipts_clear_ne same]

/-! ## The cursor -/

instance {v : View} {a : Nat} : Decidable (CursorLeads v a) :=
  inferInstanceAs (Decidable (∀ m ∈ v.s.heap a, _ ∧ ∀ k < _, _))

variable {a : Nat}

theorem CursorLeads.frame (cursor : CursorLeads ⟨s, taken, forming⟩ a) (heap : s'.heap = s.heap)
    (receipts : s'.receipts = s.receipts) : CursorLeads ⟨s', taken, forming'⟩ a := by
  unfold CursorLeads Live at *
  simp only [heap, receipts] at *
  exact cursor

/-- A part goes out, of another message or not behind the message's new cursor. -/
theorem CursorLeads.sent (cursor : CursorLeads ⟨s, taken, forming⟩ a)
    (tabled : Tabled ⟨s, taken, forming⟩) (above : ∀ j, s.receipts.key j < w.answer s.base.length)
    (found : s.heap msg = some m) (sent : PartSent m m' i (w.answer s.base.length))
    (cursors : m.lastSent ≤ m'.lastSent) (within : msg = a → i ≤ m'.lastSent) :
    CursorLeads ⟨sentState w s msg m i m', taken, forming⟩ a := by
  intro m₁ here
  -- what was live before lies within the old cursor
  have old : ∀ k, (sentState w s msg m i m').receipts.key k ≠ 0 → taken ≠ some k →
      k ≠ s.receipts.hi → Live ⟨s, taken, forming⟩ k ∧ k < s.receipts.hi ∧
        (sentState w s msg m i m').receipts.receipts k = s.receipts.receipts k := by
    intro k held untaken new
    rw [sentState_key above, if_neg new] at held
    rw [sentState_receipts above, if_neg new]
    exact ⟨⟨held, untaken⟩, (tabled.ordered.inside k held).2, rfl⟩
  obtain ⟨mine, same⟩ | ⟨other, here⟩ := heap_update_iff.mp here
  · subst mine
    cases same
    obtain ⟨unconfirmed, records⟩ := cursor m found
    refine ⟨fun k inside behind => ?_, fun k _ live mine => ?_⟩
    · have before := unconfirmed k (sent.shape.numParts ▸ inside) (by omega)
      rw [sent.part_eq]
      split
      · rename_i same
        rw [← same]
        exact before
      · exact before
    · change ((sentState w s a m i m').receipts.receipts k).partNo ≤ _
      by_cases new : k = s.receipts.hi
      · rw [sentState_receipts above, if_pos new]
        exact Nat.succ_le_succ (within rfl)
      · obtain ⟨before, inside, same⟩ := old k live.1 live.2 new
        rw [same]
        have mine : ((sentState w s a m i m').receipts.receipts k).msg = a := mine
        rw [same] at mine
        have := records k inside before mine
        change (s.receipts.receipts k).partNo ≤ _ at this
        omega
  · obtain ⟨unconfirmed, records⟩ := cursor m₁ here
    refine ⟨unconfirmed, fun k _ live mine => ?_⟩
    change ((sentState w s msg m i m').receipts.receipts k).partNo ≤ _
    have mine : ((sentState w s msg m i m').receipts.receipts k).msg = a := mine
    by_cases new : k = s.receipts.hi
    · rw [sentState_receipts above, if_pos new] at mine
      exact absurd mine.symm other
    · obtain ⟨before, inside, same⟩ := old k live.1 live.2 new
      rw [same] at mine ⊢
      exact records k inside before mine

theorem CursorLeads.lost {j : Nat} (cursor : CursorLeads ⟨s, none, none⟩ a)
    (found : s.heap msg = some m) : CursorLeads ⟨lostState s j msg m, none, none⟩ a := by
  intro m₁ here
  have records : ∀ m, s.heap a = some m → ∀ k < s.receipts.hi,
      Live ⟨lostState s j msg m, none, none⟩ k →
      ((lostState s j msg m).receipts.receipts k).msg = a →
      ((lostState s j msg m).receipts.receipts k).partNo ≤ m.lastSent + 1 := by
    intro m here k inside live mine
    obtain ⟨before, _, same⟩ := live_lost live
    rw [same] at mine ⊢
    exact (cursor m here).2 k inside before mine
  obtain ⟨mine, same⟩ | ⟨_, here⟩ := heap_update_iff.mp here
  · subst mine
    cases same
    exact ⟨(cursor m found).1, records m found⟩
  · exact ⟨(cursor m₁ here).1, records m₁ here⟩

/-- The receipt of a part within the cursor comes in. -/
theorem CursorLeads.confirmed {j : Nat} {db : Db} (orderly : Orderly w ⟨s, none, none⟩)
    (held : s.receipts.key j ≠ 0) (found : s.heap (s.receipts.receipts j).msg = some m)
    (cursor : CursorLeads ⟨s, none, none⟩ (s.receipts.receipts j).msg) :
    CursorLeads ⟨confirmedState s j m db, some j, none⟩ (s.receipts.receipts j).msg := by
  intro m₁ here
  obtain ⟨_, same⟩ | ⟨other, _⟩ := heap_update_iff.mp here
  · cases same
    obtain ⟨unconfirmed, records⟩ := cursor m found
    have within := records j (orderly.tabled.ordered.inside j held).2 ⟨held, by simp⟩ rfl
    have inside : (s.receipts.receipts j).partNo - 1 < m.fragments.length :=
      orderly.issued.place held found
    refine ⟨fun k insideK behind => ?_, fun k insideK live mine => ?_⟩
    · have away : k ≠ (s.receipts.receipts j).partNo - 1 := by
        change m.lastSent < k at behind
        change (s.receipts.receipts j).partNo ≤ _ at within
        omega
      rw [part_partConfirmed inside, if_neg away]
      exact unconfirmed k insideK behind
    · exact records k insideK ⟨live.1, by simp⟩ mine
  · exact absurd rfl other

/-- Going on behind a leading cursor keeps the accounts and the cursor. -/
theorem Owned.next (owned : Owned v) (orderly : Orderly w v) (increasing : Increasing w)
    (cursor : CursorLeads v msg) (move : Move w (.next msg) v v') :
    Owned v' ∧ CursorLeads v' msg := by
  cases move with
  | nextRefused => exact ⟨owned.frame rfl rfl, cursor.frame rfl rfl⟩
  | @nextSent s taken msg i m found inside _ behind accepted =>
    have above := orderly.above increasing accepted
    have insideF : i < m.fragments.length := (orderly.issued.shaped found).1 ▸ inside
    obtain ⟨unconfirmed, records⟩ := cursor m found
    have sent : PartSent m _ i (w.answer s.base.length) := partSent_sentLast insideF
    refine ⟨owned.sent orderly.issued above found sent (unconfirmed i inside behind) ?_,
      cursor.sent orderly.tabled above found sent (Nat.le_of_lt behind) fun _ => Nat.le_refl i⟩
    intro k live mine same
    have within := records k (orderly.tabled.ordered.inside k live.1).2 live mine
    change (s.receipts.receipts k).partNo ≤ _ at within
    omega

/-- What happens to other messages, and expiry, keep a cursor leading. -/
theorem CursorLeads.move (cursor : CursorLeads v a) (orderly : Orderly w v)
    (increasing : Increasing w) (move : Move w label v v')
    (other : label = .outside ∨ (∃ now, label = .expiry now) ∨
      ∃ b, b ≠ a ∧ (label = .next b ∨ label = .failed b)) : CursorLeads v' a := by
  rcases other with rfl | ⟨now, rfl⟩ | ⟨b, different, rfl | rfl⟩
  · cases move with
    | idle | short => exact cursor.frame rfl rfl
  · cases move with
    | @lost s now j m held _ found => exact (cursor.lost found).frame rfl rfl
    | @resent s now j m held _ found accepted =>
      have issued : Issued w s := orderly.issued
      have inside : (s.receipts.receipts j).partNo - 1 < m.fragments.length :=
        issued.place held found
      have above := above_of_increasing increasing (issued.lost j found) accepted
      refine (cursor.lost found).sent (orderly.tabled.lost j (s.receipts.receipts j).msg m) above
        (Function.update_self ..) (partSent_partSent inside) (Nat.le_refl _) fun mine => ?_
      subst mine
      have within := (cursor m found).2 j (orderly.tabled.ordered.inside j held).2
        ⟨held, by simp⟩ rfl
      change (s.receipts.receipts j).partNo ≤ _ at within
      change (s.receipts.receipts j).partNo - 1 ≤ m.lastSent
      omega
  · cases move with
    | nextRefused => exact cursor.frame rfl rfl
    | @nextSent s taken msg i m found inside _ behind accepted =>
      have insideF : i < m.fragments.length := (orderly.issued.shaped found).1 ▸ inside
      exact cursor.sent orderly.tabled (orderly.above increasing accepted) found
        (partSent_sentLast insideF) (Nat.le_of_lt behind) fun same => absurd same different
  · cases move with
    | failedRefused => exact cursor.frame rfl rfl
    | @failedSent s taken msg i m found inside _ _ accepted =>
      have insideF : i < m.fragments.length := (orderly.issued.shaped found).1 ▸ inside
      exact cursor.sent orderly.tabled (orderly.above increasing accepted) found
        (partSent_partSent insideF) (Nat.le_refl _) fun same => absurd same different

/-! ## Runs -/

/-- The cursors lead where they are used: that of a message that stays
incomplete with a receipt, and that of every linked message in a periodic pass,
unless its friend is offline. -/
def Leading (w : World) (s : State) : Op → Prop
  | .send .. => True
  | .receipt _ messageId => messageId ≠ 0 ∧ ∀ j ∈ s.receipts.findReceipt messageId,
      s.receipts.key j = messageId → w.online s.polls = true →
        (∃ m ∈ s.heap (s.receipts.receipts j).msg, m.numConfirmed + 1 < m.numParts) →
          CursorLeads ⟨s, none, none⟩ (s.receipts.receipts j).msg
  | .periodic => ∀ p ∈ s.msgsOutbound.zipIdx s.polls, w.online p.2 = true →
      CursorLeads ⟨s, none, none⟩ p.1

instance {w : World} {s : State} : DecidablePred (Leading w s) := fun op =>
  match op with
  | .send .. => .isTrue trivial
  | .receipt .. => inferInstanceAs (Decidable (_ ≠ 0 ∧ ∀ j ∈ s.receipts.findReceipt _, _ → _))
  | .periodic => inferInstanceAs (Decidable (∀ p ∈ s.msgsOutbound.zipIdx s.polls, _ → _))

theorem countP_confirmed (fragments : List Fragment) : fragments.countP (·.confirmed) =
    ((Finset.range fragments.length).filter fun i => (fragments.getD i {}).confirmed = true).card := by
  induction fragments using List.reverseRecOn with
  | nil => rfl
  | append_singleton front f ih =>
    have before : ∀ i ∈ Finset.range front.length,
        ((front ++ [f]).getD i {}).confirmed = (front.getD i {}).confirmed := by
      intro i inside
      have inside := Finset.mem_range.mp inside
      rw [List.getD_eq_getElem?_getD, List.getElem?_append_left inside, List.getD_eq_getElem?_getD]
    have last : (front ++ [f]).getD front.length {} = f := by
      simp [List.getD_eq_getElem?_getD]
    have same : (Finset.range front.length).filter
        (fun i => ((front ++ [f]).getD i {}).confirmed = true) =
        (Finset.range front.length).filter fun i => (front.getD i {}).confirmed = true := by
      apply Finset.filter_congr
      intro i inside
      rw [before i inside]
    rw [List.countP_append, ih, List.length_append, List.length_singleton, Finset.range_add_one,
      Finset.filter_insert, last, same]
    cases confirmed : f.confirmed with
    | false => simp [confirmed]
    | true =>
      rw [if_pos rfl, Finset.card_insert_of_notMem (by simp)]
      simp [confirmed]

theorem accounted_of_owned (orderly : Orderly w ⟨s, none, none⟩) (owned : Owned ⟨s, none, none⟩) :
    Accounted s where
  confirmed a m found := by
    have shaped := orderly.issued.shaped found
    rw [owned.counted a m found, countP_confirmed, shaped.1]
    rfl
  once j k heldJ heldK found sameMsg samePart := by
    obtain ⟨m, found⟩ := found
    exact owned.once orderly.tabled ⟨heldJ, by simp⟩ ⟨heldK, by simp⟩ found sameMsg samePart
  unconfirmed k m held found := by
    have inside : (s.receipts.receipts k).partNo - 1 < m.fragments.length :=
      orderly.issued.place held found
    have own := (owned.owns k m ⟨held, by simp⟩ found).2
    change (part m ((s.receipts.receipts k).partNo - 1)).confirmed = false at own
    rw [part, List.getD_eq_getElem?_getD, List.getElem?_eq_getElem inside] at own
    exact ⟨_, List.getElem?_eq_getElem inside, own⟩
  within a m found := by
    have count : (liveSlots s a).card ≤ ((Finset.range m.numParts) \ confirmedParts m).card := by
      refine Finset.card_le_card_of_injOn (fun k => (s.receipts.receipts k).partNo - 1) ?_ ?_
      · intro k member
        obtain ⟨_, _, held, mine⟩ := Finset.mem_filter.mp (Finset.mem_coe.mp member)
        have found : s.heap (s.receipts.receipts k).msg = some m := mine ▸ found
        have number := orderly.issued.part held found
        have own := (owned.owns k m ⟨held, by simp⟩ found).2
        change 0 < (s.receipts.receipts k).partNo ∧ (s.receipts.receipts k).partNo ≤ _ at number
        change (part m ((s.receipts.receipts k).partNo - 1)).confirmed = false at own
        simp only [confirmedParts, Finset.coe_sdiff, Set.mem_sdiff, Finset.mem_coe, Finset.mem_range,
          Finset.mem_filter, own]
        refine ⟨by omega, by simp⟩
      · intro j memberJ k memberK same
        obtain ⟨_, _, heldJ, mineJ⟩ := Finset.mem_filter.mp (Finset.mem_coe.mp memberJ)
        obtain ⟨_, _, heldK, mineK⟩ := Finset.mem_filter.mp (Finset.mem_coe.mp memberK)
        have foundJ : s.heap (s.receipts.receipts j).msg = some m := mineJ ▸ found
        have numberJ := orderly.issued.part heldJ foundJ
        have numberK := orderly.issued.part heldK (mineK ▸ found)
        have samePart : (s.receipts.receipts j).partNo = (s.receipts.receipts k).partNo := by
          change 0 < (s.receipts.receipts j).partNo ∧ _ at numberJ
          change 0 < (s.receipts.receipts k).partNo ∧ _ at numberK
          simp only at same
          omega
        exact owned.once orderly.tabled ⟨heldJ, by simp⟩ ⟨heldK, by simp⟩ foundJ
          (mineJ.trans mineK.symm) samePart
    have inside : confirmedParts m ⊆ Finset.range m.numParts := Finset.filter_subset _ _
    have split := Finset.card_sdiff_add_card_eq_card inside
    rw [Finset.card_range] at split
    have counted := owned.counted a m found
    change m.numConfirmed = _ at counted
    omega

/-- Moves one after another, each made while the accounts are right, which they
are in the end. -/
structure Tidy (w : World) (v v' : View) : Prop where
  moves : Relation.ReflTransGen
    (fun v v' => Orderly w v ∧ Owned v ∧ ∃ label, Move w label v v') v v'
  orderly : Orderly w v'
  owned : Owned v'

namespace Tidy

theorem refl (orderly : Orderly w v) (owned : Owned v) : Tidy w v v := ⟨.refl, orderly, owned⟩

theorem trans {v'' : View} (first : Tidy w v v') (second : Tidy w v' v'') : Tidy w v v'' :=
  ⟨first.moves.trans second.moves, second.orderly, second.owned⟩

theorem single (orderly : Orderly w v) (owned : Owned v) (increasing : Increasing w)
    (move : Move w label v v') (after : Owned v') : Tidy w v v' :=
  ⟨.single ⟨orderly, owned, label, move⟩, orderly.move increasing move, after⟩

/-- A move that does not go on behind a cursor. -/
theorem move (orderly : Orderly w v) (owned : Owned v) (increasing : Increasing w)
    (other : ∀ msg, label ≠ .next msg) (move : Move w label v v') : Tidy w v v' :=
  .single orderly owned increasing move (owned.move orderly increasing other move)

/-- A chain without going on behind a cursor. -/
theorem chain {admitted : Label → Prop} (orderly : Orderly w v) (owned : Owned v)
    (increasing : Increasing w) (chain : Chain w admitted v v')
    (other : ∀ label, admitted label → ∀ msg, label ≠ .next msg) : Tidy w v v' :=
  chain.invariant (I := Tidy w v)
    (fun {label _ _} ok move before => before.trans
      (.move before.orderly before.owned increasing (other label ok) move)) (.refl orderly owned)

/-- What every move made while the accounts are right keeps. -/
theorem invariant {I : View → Prop} (tidy : Tidy w v v')
    (keep : ∀ {label v v'}, Orderly w v → Owned v → Move w label v v' → I v → I v') (holds : I v) :
    I v' := by
  have moves := tidy.moves
  clear tidy
  induction moves with
  | refl => exact holds
  | tail _ move ih =>
    obtain ⟨orderly, owned, _, move⟩ := move
    exact keep orderly owned move ih

end Tidy

/-- Serving a message behind a leading cursor. -/
theorem tidy_serves (increasing : Increasing w) (orderly : Orderly w ⟨s, taken, none⟩)
    (owned : Owned ⟨s, taken, none⟩) (serves : Serves w taken msg s s')
    (cursor : w.online s.polls = true → CursorLeads ⟨s, taken, none⟩ msg) :
    Tidy w ⟨s, taken, none⟩ ⟨s', taken, none⟩ := by
  have poll : Move w .outside ⟨s, taken, none⟩ ⟨{ s with polls := s.polls + 1 }, taken, none⟩ :=
    .idle (Nat.le_refl s.ticks)
  have polled := Tidy.move orderly owned increasing (fun _ => Label.noConfusion) poll
  cases serves with
  | offline _ same =>
    subst same
    exact polled
  | online online next _ failed =>
    have cursor' : CursorLeads ⟨{ s with polls := s.polls + 1 }, taken, none⟩ msg :=
      (cursor online).frame rfl rfl
    obtain ⟨went, _⟩ := next.invariant
      (I := fun v => Tidy w ⟨{ s with polls := s.polls + 1 }, taken, none⟩ v ∧ CursorLeads v msg)
      (fun {label v v'} same move before => by
        subst same
        obtain ⟨owned, cursor⟩ := before.1.owned.next before.1.orderly increasing before.2 move
        exact ⟨before.1.trans (.single before.1.orderly before.1.owned increasing move owned), cursor⟩)
      ⟨.refl polled.orderly polled.owned, cursor'⟩
    refine polled.trans (went.trans (.chain went.orderly went.owned increasing failed ?_))
    rintro label rfl msg
    exact Label.noConfusion

theorem cursor_serves (increasing : Increasing w) (orderly : Orderly w ⟨s, taken, none⟩)
    (cursor : CursorLeads ⟨s, taken, none⟩ a) (different : msg ≠ a)
    (serves : Serves w taken msg s s') : CursorLeads ⟨s', taken, none⟩ a := by
  refine (serves.chain.invariant (I := fun v => Orderly w v ∧ CursorLeads v a) ?_
    ⟨orderly, cursor⟩).2
  intro label v v' ok move before
  refine ⟨before.1.move increasing move, before.2.move before.1 increasing move ?_⟩
  rcases ok with outside | next | failed
  · exact .inl outside
  · exact .inr (.inr ⟨msg, different, .inl next⟩)
  · exact .inr (.inr ⟨msg, different, .inr failed⟩)

/-- Once the first message of a list is served, the cursors of the rest lead as before. -/
theorem cursors_serves {rest : List Nat} (increasing : Increasing w) (orderly : Orderly w ⟨s, none, none⟩)
    (nodup : (msg :: rest).Nodup) (serves : Serves w none msg s s')
    (cursors : ∀ p ∈ (msg :: rest).zipIdx s.polls, w.online p.2 = true → CursorLeads ⟨s, none, none⟩ p.1) :
    ∀ p ∈ rest.zipIdx s'.polls, w.online p.2 = true → CursorLeads ⟨s', none, none⟩ p.1 := by
  intro p member online
  rw [List.zipIdx_cons] at cursors
  rw [serves.polls] at member
  have inside : p.1 ∈ rest := List.fst_mem_of_mem_zipIdx member
  have different : msg ≠ p.1 := fun same => (List.nodup_cons.mp nodup).1 (same ▸ inside)
  exact cursor_serves increasing orderly (cursors p (List.mem_cons_of_mem _ member) online) different serves

theorem tidy_served {msgs : List Nat} (increasing : Increasing w) (served : Served w msgs s s')
    (orderly : Orderly w ⟨s, none, none⟩) (owned : Owned ⟨s, none, none⟩) (nodup : msgs.Nodup)
    (cursors : ∀ p ∈ msgs.zipIdx s.polls, w.online p.2 = true → CursorLeads ⟨s, none, none⟩ p.1) :
    Tidy w ⟨s, none, none⟩ ⟨s', none, none⟩ := by
  induction served with
  | nil => exact .refl orderly owned
  | @cons s s₁ s' msg rest serves _ ih =>
    have own : w.online s.polls = true → CursorLeads ⟨s, none, none⟩ msg :=
      cursors (msg, s.polls) (by rw [List.zipIdx_cons]; exact List.mem_cons_self)
    have first := tidy_serves increasing orderly owned serves own
    exact first.trans (ih first.orderly first.owned (List.nodup_cons.mp nodup).2
      (cursors_serves increasing orderly nodup serves cursors))

/-- A receipt of a part waited for, with the cursor of its message leading if
the message goes on. -/
theorem tidy_processed {messageId : Nat} (increasing : Increasing w)
    (orderly : Orderly w ⟨s, none, none⟩) (owned : Owned ⟨s, none, none⟩) (friendNumber : Nat)
    (leading : Leading w s (.receipt friendNumber messageId)) (processed : Processed w messageId s s') :
    Tidy w ⟨s, none, none⟩ ⟨s', none, none⟩ := by
  obtain ⟨proper, leading⟩ := leading
  have other : ∀ msg, Label.receipt friendNumber messageId ≠ .next msg :=
    fun _ => Label.noConfusion
  cases processed with
  | @completed j m m' db lookup held found stored same all result =>
    subst same result
    have confirm : Move w (.receipt friendNumber messageId) ⟨s, none, none⟩
      ⟨confirmedState s j m db, some j, none⟩ := .confirmed proper lookup held found stored
    have complete : Move w (.receipt friendNumber messageId)
      ⟨confirmedState s j m db, some j, none⟩ _ := .completed (Function.update_self ..) all
    have clear : Move w (.receipt friendNumber messageId)
      ⟨completedState (confirmedState s j m db) (s.receipts.receipts j).msg
        (partConfirmed m (s.receipts.receipts j).partNo), some j, none⟩ _ := .cleared
    have first := Tidy.move orderly owned increasing other confirm
    have second := first.trans (.move first.orderly first.owned increasing other complete)
    exact second.trans (.move second.orderly second.owned increasing other clear)
  | @continued j m m' db s₁ lookup held found stored same more serves result =>
    subst same result
    have confirm : Move w (.receipt friendNumber messageId) ⟨s, none, none⟩
      ⟨confirmedState s j m db, some j, none⟩ := .confirmed proper lookup held found stored
    have clear : Move w (.receipt friendNumber messageId) ⟨s₁, some j, none⟩ _ := .cleared
    have heldJ : s.receipts.key j ≠ 0 := held ▸ proper
    have first := Tidy.move orderly owned increasing other confirm
    have incomplete := owned.unfinished orderly heldJ found more
    have cursor : w.online (confirmedState s j m db).polls = true →
        CursorLeads ⟨confirmedState s j m db, some j, none⟩ (s.receipts.receipts j).msg := by
      intro online
      exact (leading j lookup held online ⟨m, found, incomplete⟩).confirmed orderly heldJ found
    have second := first.trans (tidy_serves increasing first.orderly first.owned serves cursor)
    exact second.trans (.move second.orderly second.owned increasing other clear)

/-- An expiry pass keeps every leading cursor leading. -/
theorem tidy_expires (increasing : Increasing w) (orderly : Orderly w ⟨s, none, none⟩)
    (owned : Owned ⟨s, none, none⟩) (expires : Expires w s s') :
    Tidy w ⟨s, none, none⟩ ⟨s', none, none⟩ ∧
      ∀ a, CursorLeads ⟨s, none, none⟩ a → CursorLeads ⟨s', none, none⟩ a := by
  rcases expires with rfl | chain
  · exact ⟨.refl orderly owned, fun a cursor => cursor⟩
  · have tick : Move w .outside ⟨s, none, none⟩ ⟨{ s with ticks := s.ticks + 1 }, none, none⟩ :=
      .idle (Nat.le_succ s.ticks)
    have ticked := Tidy.move orderly owned increasing (fun _ => Label.noConfusion) tick
    refine ⟨ticked.trans (.chain ticked.orderly ticked.owned increasing chain ?_), fun a cursor => ?_⟩
    · rintro label rfl msg
      exact Label.noConfusion
    · have cursor₁ : CursorLeads ⟨{ s with ticks := s.ticks + 1 }, none, none⟩ a :=
        cursor.frame rfl rfl
      exact (chain.invariant (I := fun v => Orderly w v ∧ CursorLeads v a)
        (fun {label _ _} same move before => ⟨before.1.move increasing move,
          before.2.move before.1 increasing move (.inr (.inl ⟨_, same⟩))⟩)
        ⟨ticked.orderly, cursor₁⟩).2

/-- A call whose cursors lead where they are used. -/
theorem tidy_step {op : Op} (increasing : Increasing w) (orderly : Orderly w ⟨s, none, none⟩)
    (owned : Owned ⟨s, none, none⟩) (leading : Leading w s op) (ran : step w op s = .ok s') :
    Tidy w ⟨s, none, none⟩ ⟨s', none, none⟩ := by
  cases op with
  | send friendNumber type message beyond =>
    refine .chain orderly owned increasing (send_chain ran) ?_
    rintro label (rfl | rfl | rfl) msg <;> exact Label.noConfusion
  | receipt friendNumber messageId =>
    rcases receipt_cases ran with ⟨_, _, rfl⟩ | ⟨missing, outside, rfl⟩ | processed
    · exact .refl orderly owned
    · have pass : Move w (.receipt friendNumber messageId) ⟨s, none, none⟩ _ := .passed missing outside
      exact .move orderly owned increasing (fun _ => Label.noConfusion) pass
    · exact tidy_processed increasing orderly owned friendNumber leading processed
  | periodic =>
    obtain ⟨s₁, expires, served⟩ := periodic_cases ran
    obtain ⟨list, polls, _⟩ := expires.frame
    obtain ⟨first, cursors⟩ := tidy_expires increasing orderly owned expires
    refine first.trans (tidy_served increasing served first.orderly first.owned first.orderly.linked.nodup ?_)
    intro p member online
    rw [list, polls] at member
    exact cursors p.1 (leading p member online)

/-- What holds at first and is kept by every move made while the accounts are
right holds wherever the cursors lead where they are used. -/
theorem leading_invariant {ops : List Op} {I : View → Prop} (increasing : Increasing w)
    (run : Run (step w) (Leading w) (Started w) ops s)
    (init : I ⟨initialState w, none, none⟩)
    (keep : ∀ {label v v'}, Orderly w v → Owned v → Move w label v v' → I v → I v') :
    Orderly w ⟨s, none, none⟩ ∧ Owned ⟨s, none, none⟩ ∧ I ⟨s, none, none⟩ := by
  refine run.invariant
    (I := fun s => Orderly w ⟨s, none, none⟩ ∧ Owned ⟨s, none, none⟩ ∧ I ⟨s, none, none⟩) ?_ ?_
  · intro s started
    rw [started_iff.mp started]
    refine ⟨.initial, ⟨fun k m live => absurd rfl live.1, fun a m found => ?_⟩, init⟩
    cases found
  · intro s op s' before leading ran
    have tidy := tidy_step increasing before.1 before.2.1 leading ran
    exact ⟨tidy.orderly, tidy.owned, tidy.invariant keep before.2.2⟩

/-- In every run whose cursors lead where they are used, the sender's accounts are right. -/
theorem accounted_of_leading_cursors {ops : List Op} (increasing : Increasing w)
    (run : Run (step w) (Leading w) (Started w) ops s) : Accounted s := by
  obtain ⟨orderly, owned, _⟩ := leading_invariant (I := fun _ => True) increasing run trivial
    fun _ _ _ _ => trivial
  exact accounted_of_owned orderly owned

/-- A message of two parts, the second of which is rejected at first. -/
def secondRejected (answers : List Nat) : World := scripted { maxMessageLength := 64 } answers []

/-- The second part goes out in a periodic pass and moves the cursor. -/
theorem accounted_of_second_try : ∃ s,
    Run (step (secondRejected [5, 0, 6])) (Leading (secondRejected [5, 0, 6]))
      (Started (secondRejected [5, 0, 6]))
      [.receipt 1 5, .periodic, .send 1 0 (List.replicate 65 1) fun _ => 0] s ∧
    (liveSlots s 0).card = 1 ∧ Accounted s := by
  obtain ⟨s, run, checked⟩ := exists_run (step (secondRejected [5, 0, 6]))
    (Leading (secondRejected [5, 0, 6]))
    [.send 1 0 (List.replicate 65 1) fun _ => 0, .periodic, .receipt 1 5]
    (fun s => (liveSlots s 0).card = 1) (started_initialState (secondRejected [5, 0, 6]))
    (by decide +kernel)
  exact ⟨s, run, of_decide_eq_true checked,
    accounted_of_leading_cursors (increasing_scripted (by decide)) run⟩

/-- Rejected once more there and sent as a part that failed, it is sent again
in the next pass, and two records wait for it. -/
theorem two_records_for_one_part : ∃ s,
    Increasing (secondRejected [5, 0, 0, 6, 7]) ∧
    Run (step (secondRejected [5, 0, 0, 6, 7])) (fun _ op => Proper op)
      (Started (secondRejected [5, 0, 0, 6, 7]))
      [.periodic, .periodic, .send 1 0 (List.replicate 65 1) fun _ => 0] s ∧
    0 ∈ s.msgsOutbound ∧ ¬ Accounted s := by
  obtain ⟨s, run, checked⟩ := exists_run (step (secondRejected [5, 0, 0, 6, 7]))
    (fun _ op => Proper op)
    [.send 1 0 (List.replicate 65 1) fun _ => 0, .periodic, .periodic]
    (fun s => 0 ∈ s.msgsOutbound ∧ (s.heap 0).isSome ∧
      s.receipts.receipts 1 = ⟨6, 0, 2, 1234567890123⟩ ∧
      s.receipts.receipts 2 = ⟨7, 0, 2, 1234567890123⟩)
    (started_initialState (secondRejected [5, 0, 0, 6, 7])) (by decide +kernel)
  obtain ⟨linked, exists_, second, third⟩ := of_decide_eq_true checked
  refine ⟨s, increasing_scripted (by decide), run, linked, fun accounted => ?_⟩
  have same := accounted.once 1 2 (by rw [ReceiptTable.key, second]; decide)
    (by rw [ReceiptTable.key, third]; decide)
    (by rw [second]; exact Option.isSome_iff_exists.mp exists_) (by rw [second, third])
    (by rw [second, third])
  cases same

end Defragmenter.Accounting
