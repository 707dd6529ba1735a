import Defragmenter.Anchoring
import Defragmenter.ClientView
import Defragmenter.PendingQuery
import Defragmenter.Stranding

/-! Whether every message is completed. While the base library takes every
fragment and no record expires, the parts of a message go out in order, and as
soon as there is room for the next. So every receipt that is not the last of
its message leaves a record behind, and when all have come in there is no
message left, unless `findReceipt` loses one. -/
namespace Defragmenter.Completion
open SparseSearch Database Split Receipts Sender Moves Provenance Tracking Accounting Messages Window
open Bookkeeping Anchoring PendingQuery Stranding ClientView Runs

/-- The base library takes every message, under ever larger numbers, and every
friend is connected. `fragmentsAtATime` is an `unsigned`. -/
structure Obliging (w : World) : Prop where
  taken : ∀ n, w.answer n ≠ 0
  larger : ∀ i j, i < j → w.answer i < w.answer j
  online : ∀ n, w.online n = true
  small : w.params.fragmentsAtATime < 2 ^ 32

/-- A receipt is one for a call that was made, and the search of the table does
not lose its record; no record expires. -/
def Heard (w : World) (s : State) : Op → Prop
  | .send .. => True
  | .receipt _ messageId => (∃ i < s.base.length, w.answer i = messageId) ∧
      ∀ k < s.receipts.hi, s.receipts.key k = messageId →
        ¬ Hidden s.receipts.key s.receipts.lo s.receipts.hi k
  | .periodic => ∀ k < s.receipts.hi, expired w (w.clock s.ticks) (s.receipts.receipts k) = false

def completionOf (msg : Nat) : Event → Option (Nat × Nat)
  | .completed a friendNumber receipt => if a = msg then some (friendNumber, receipt) else none
  | _ => none

/-- The client's callbacks for the message: its friend and its number. -/
def completions (s : State) (msg : Nat) : List (Nat × Nat) := s.events.filterMap (completionOf msg)

/-- A message goes on: its parts are out up to `lastSent`, and there is no room
for more of them or there are no more. -/
structure Going (w : World) (m : MsgOutbound) : Prop where
  window : 0 < w.params.fragmentsAtATime
  unfinished : m.numConfirmed < m.numParts
  within : m.lastSent < m.numParts
  out : ∀ i ≤ m.lastSent, ¬ Blank m i
  sated : w.params.fragmentsAtATime ≤ m.numTransit ∨ m.numParts ≤ m.lastSent + 1

variable {w : World} {v v' : View} {label : Label} {s s' : State} {taken taken' : Option Nat}
  {forming forming' : Option (Nat × List UInt8)} {msg i a k : Nat} {m m' : MsgOutbound}

theorem Obliging.increasing (obliging : Obliging w) : Increasing w :=
  fun i j before _ _ => obliging.larger i j before

/-! ## The loops -/

/-- What one run of the loop that moves `lastSent` along has made of a message:
it stopped before part `stop`, and all parts before that one are out. -/
structure Marched (m m' : MsgOutbound) (start stop : Nat) : Prop where
  shape : SameShape m m'
  numConfirmed : m'.numConfirmed = m.numConfirmed
  forth : start ≤ stop
  out : ∀ k < stop, ¬ Blank m' k
  cursor : stop = start ∧ m' = m ∨ m'.lastSent + 1 = stop

theorem sendFrom_marches {count : Nat} (obliging : Obliging w) : ∀ {i : Nat} {s : State} {m : MsgOutbound},
    s.heap msg = some m → m.fragments.length = m.numParts → i + count = m.numParts →
      (∀ k < i, ¬ Blank m k) → sendFrom w msg count i s = .ok s' →
        ∃ m' stop, s'.heap msg = some m' ∧ Marched m m' i stop ∧ stop ≤ m.numParts ∧
          (w.params.fragmentsAtATime ≤ m'.numTransit ∨ stop = m.numParts) ∧
          (stop = i ∨ 0 < w.params.fragmentsAtATime) ∧ ∀ a ≠ msg, s'.heap a = s.heap a := by
  induction count with
  | zero =>
    intro i s m found _ inside out ran
    cases ran
    have last : i = m.numParts := inside
    exact ⟨m, i, found, ⟨⟨rfl, rfl, rfl, rfl⟩, rfl, Nat.le_refl i, out, .inl ⟨rfl, rfl⟩⟩,
      Nat.le_of_eq last, .inr last, .inl rfl, fun _ _ => rfl⟩
  | succ count ih =>
    intro i s m found shaped inside out ran
    rw [sendFrom_succ found] at ran
    split at ran
    · rename_i room
      rw [if_neg (obliging.taken _)] at ran
      have here : i < m.fragments.length := by omega
      have sent := @partSent_sentLast m i (w.answer s.base.length) here
      have out' : ∀ k < i + 1, ¬ Blank { partSent m i (w.answer s.base.length) with lastSent := i } k := by
        intro k before
        rw [Blank, sent.part_eq]
        split
        · exact fun blank => obliging.taken _ blank.1
        · exact out k (by omega)
      obtain ⟨m', stop, found', marched, bound, sated, _, others⟩ := ih sentState_heap
        (by rw [sent.shape.fragments, sent.shape.numParts, shaped])
        (by rw [sent.shape.numParts]; omega) out' ran
      obtain ⟨shape, numConfirmed, forth, out, cursor⟩ := marched
      rw [sent.shape.numParts] at bound sated
      refine ⟨m', stop, found', ⟨sent.shape.trans shape, numConfirmed, by omega, out, .inr ?_⟩, bound, sated,
        .inr (by omega), fun a other => ?_⟩
      · rcases cursor with ⟨same, rfl⟩ | behind
        · exact same.symm
        · exact behind
      · rw [others a other]
        exact Function.update_of_ne other _ _
    · rename_i full
      cases ran
      exact ⟨m, i, found, ⟨⟨rfl, rfl, rfl, rfl⟩, rfl, Nat.le_refl i, out, .inl ⟨rfl, rfl⟩⟩, by omega,
        .inl (Nat.le_of_not_lt full), .inl rfl, fun _ _ => rfl⟩

/-- Nothing that failed is left to be sent. -/
theorem sendFailed_idle {count : Nat} (found : s.heap msg = some m)
    (idle : w.params.fragmentsAtATime ≤ m.numTransit ∨ ∀ k < m.numParts, ¬ Blank m k) : ∀ {i : Nat},
      i + count ≤ m.numParts → sendFailed w msg count i s = .ok s := by
  induction count with
  | zero => exact fun _ => rfl
  | succ count ih =>
    intro i inside
    rw [sendFailed, msgAt_ok.mpr found]
    simp only [bind, Except.bind]
    split
    · rename_i room
      have out : ¬ Blank m i := idle.resolve_left (by omega) i (by omega)
      exact (if_neg out).trans (ih (by omega))
    · rfl

/-- A message that is served goes on behind its cursor, and nothing else happens. -/
theorem serve_marches (obliging : Obliging w) (taken : Option Nat) (found : s.heap msg = some m)
    (shaped : m.fragments.length = m.numParts) (within : m.lastSent < m.numParts)
    (out : ∀ i ≤ m.lastSent, ¬ Blank m i) (window : 0 < w.params.fragmentsAtATime)
    (unfinished : m.numConfirmed < m.numParts) (ran : serve w s msg = .ok s') :
    (∃ m', s'.heap msg = some m' ∧ Going w m') ∧ (∀ a ≠ msg, s'.heap a = s.heap a) ∧
      Chain w (fun l => l = .outside ∨ l = .next msg) ⟨s, taken, none⟩ ⟨s', taken, none⟩ := by
  unfold serve isFriendOnline at ran
  dsimp only at ran
  rw [if_pos (obliging.online _)] at ran
  have poll : Move w .outside ⟨s, taken, none⟩ ⟨{ s with polls := s.polls + 1 }, taken, none⟩ :=
    .idle (Nat.le_refl s.ticks)
  have found' : ({ s with polls := s.polls + 1 } : State).heap msg = some m := found
  obtain ⟨m₀, here, ran⟩ := bind_ok.mp ran
  cases found'.symm.trans (msgAt_ok.mp here)
  obtain ⟨s₁, went, failed⟩ := bind_ok.mp ran
  obtain ⟨next, _⟩ := sendFrom_next taken found' (Nat.lt_succ_self _) (fun _ => Nat.le_refl _)
    (by omega) went
  obtain ⟨m', stop, found₁, marched, bound, sated, _, others⟩ := sendFrom_marches obliging found' shaped
    (by omega) (fun k before => out k (by omega)) went
  obtain ⟨shape, numConfirmed, forth, out', cursor⟩ := marched
  have reached : m'.lastSent + 1 = stop := by
    rcases cursor with ⟨same, rfl⟩ | reached
    · exact same.symm
    · exact reached
  have idle : w.params.fragmentsAtATime ≤ m'.numTransit ∨ ∀ k < m'.numParts, ¬ Blank m' k := by
    refine sated.imp_right fun all k inside => out' k ?_
    rw [shape.numParts] at inside
    omega
  have still : sendFailed w msg m.numParts 0 s₁ = .ok s₁ := by
    rw [← shape.numParts]
    exact sendFailed_idle found₁ idle (Nat.le_of_eq (Nat.zero_add _))
  cases still.symm.trans failed
  refine ⟨⟨m', found₁, window, ?_, ?_, fun i le => out' i (by omega), ?_⟩, others,
    .cons (.inl rfl) poll (next.mono fun _ => .inr)⟩
  · rw [numConfirmed, shape.numParts]
    exact unfinished
  · rw [shape.numParts]
    omega
  · rw [shape.numParts]
    exact sated.imp_right fun all => by omega

/-! ## The cursors -/

/-- What is live now was so before, and the message is the same to its cursor. -/
theorem cursor_kept (cursor : CursorLeads ⟨s, taken, forming⟩ a) (tabled : Tabled ⟨s, taken, forming⟩)
    (heap : ∀ m', s'.heap a = some m' → ∃ m, s.heap a = some m ∧ m'.lastSent = m.lastSent ∧
      m'.numParts = m.numParts ∧ ∀ k, (part m' k).confirmed = (part m k).confirmed)
    (kept : ∀ k, Live ⟨s', taken', forming'⟩ k → Live ⟨s, taken, forming⟩ k ∧
      s'.receipts.receipts k = s.receipts.receipts k) : CursorLeads ⟨s', taken', forming'⟩ a := by
  intro m' here
  obtain ⟨m, found, lastSent, numParts, flags⟩ := heap m' here
  obtain ⟨unconfirmed, records⟩ := cursor m found
  refine ⟨fun k inside behind => ?_, fun k _ live mine => ?_⟩
  · rw [flags]
    exact unconfirmed k (numParts ▸ inside) (lastSent ▸ behind)
  · obtain ⟨before, same⟩ := kept k live
    have mine : (s'.receipts.receipts k).msg = a := mine
    change (s'.receipts.receipts k).partNo ≤ m'.lastSent + 1
    rw [same] at mine ⊢
    rw [lastSent]
    exact records k (tabled.ordered.inside k before.1).2 before mine

/-- The message stands as it was. -/
theorem same_cursor (heap : s'.heap a = s.heap a) : ∀ m', s'.heap a = some m' →
    ∃ m, s.heap a = some m ∧ m'.lastSent = m.lastSent ∧ m'.numParts = m.numParts ∧
      ∀ k, (part m' k).confirmed = (part m k).confirmed :=
  fun m' here => ⟨m', heap ▸ here, rfl, rfl, fun _ => rfl⟩

/-- The first window leaves every cursor leading. -/
theorem cursor_first (cursor : CursorLeads v a) (orderly : Orderly w v) (increasing : Increasing w)
    (move : Move w .first v v') : CursorLeads v' a := by
  cases move with
  | firstRefused => exact cursor.frame rfl rfl
  | @firstSent s msg i message m found inside _ _ behind accepted =>
    have insideF : i < m.fragments.length := (orderly.issued.shaped found).1 ▸ inside
    exact cursor.sent orderly.tabled (orderly.above increasing accepted) found
      (partSent_sentLast insideF) behind fun _ => Nat.le_refl i

/-- A message that is served, and the others, keep their cursors leading. -/
theorem cursor_served (increasing : Increasing w) (orderly : Orderly w ⟨s, taken, none⟩)
    (owned : Owned ⟨s, taken, none⟩) (cursors : ∀ a, CursorLeads ⟨s, taken, none⟩ a)
    (chain : Chain w (fun l => l = .outside ∨ l = .next msg) ⟨s, taken, none⟩ ⟨s', taken, none⟩) :
    ∀ a, CursorLeads ⟨s', taken, none⟩ a := by
  refine (chain.invariant (I := fun v => Orderly w v ∧ Owned v ∧ ∀ a, CursorLeads v a) ?_
    ⟨orderly, owned, cursors⟩).2.2
  rintro label v v' ok move ⟨orderly, owned, cursors⟩
  have after := orderly.move increasing move
  rcases ok with rfl | rfl
  · refine ⟨after, owned.move orderly increasing (fun _ => Label.noConfusion) move, fun a => ?_⟩
    exact (cursors a).move orderly increasing move (.inl rfl)
  · obtain ⟨owned', own⟩ := owned.next orderly increasing (cursors msg) move
    refine ⟨after, owned', fun a => ?_⟩
    by_cases same : msg = a
    · exact same ▸ own
    · exact (cursors a).move orderly increasing move (.inr (.inr ⟨msg, same, .inl rfl⟩))

/-! ## Between the calls -/

/-- The move is none of an expiry pass, and does not go back to a part that failed. -/
def Marching (label : Label) : Prop := NoExpiry label ∧ ∀ msg, label ≠ .failed msg

theorem marching_served {label : Label} (served : label = .outside ∨ label = .next msg) : Marching label := by
  rcases served with rfl | rfl <;> exact ⟨nofun, nofun⟩

/-- Every message goes on, and its cursor leads. -/
structure Paced (w : World) (s : State) : Prop where
  cursors : ∀ a, CursorLeads ⟨s, none, none⟩ a
  going : ∀ a m, s.heap a = some m → Going w m

theorem Paced.frame (paced : Paced w s) (heap : s'.heap = s.heap) (receipts : s'.receipts = s.receipts) :
    Paced w s' :=
  ⟨fun a => (paced.cursors a).frame heap receipts, fun a m here => paced.going a m (heap ▸ here)⟩

/-- A message that is new has no records. -/
theorem cursor_begun {friendNumber id maxLength : Nat} {bytes : List UInt8}
    (orderly : Orderly w ⟨s, none, none⟩) (paced : Paced w s)
    (split : splitMessage s.markerMaxSizeEver bytes maxLength id = .ok m) :
    CursorLeads ⟨begunState w s friendNumber m, none, some (s.fresh, bytes)⟩ a := by
  by_cases own : a = s.fresh
  · subst own
    intro m' here
    obtain ⟨_, same⟩ | ⟨other, _⟩ := heap_update_iff.mp here
    · cases same
      refine ⟨fun i _ _ => (blank_of_unsent (unsent_of_split split) i).2, fun k _ live mine => ?_⟩
      obtain ⟨i, call, at_i, part, _⟩ := orderly.issued.recorded k live.1
      have below := (orderly.issued.called at_i part).1
      have mine : (s.receipts.receipts k).msg = s.fresh := mine
      change (s.receipts.receipts k).msg < s.fresh at below
      omega
    · exact absurd rfl other
  · refine cursor_kept (paced.cursors a) orderly.tabled (same_cursor ?_) fun k live => ⟨live, rfl⟩
    exact Function.update_of_ne own _ _

theorem Paced.long (obliging : Obliging w) (orderly : Orderly w ⟨s, none, none⟩) (paced : Paced w s)
    {friendNumber : Nat} {type : Int} {bytes : List UInt8} (long : w.params.maxMessageLength < bytes.length)
    (sends : LongSend w friendNumber type bytes s s') : Paced w s' := by
  have first : ∀ {m : MsgOutbound} {s₁ : State}, splitMessage s.markerMaxSizeEver bytes
      w.params.maxMessageLength (max (w.clock s.ticks) (s.lastMsgId + 1)) = .ok m →
      Chain w (· = .first) ⟨begunState w s friendNumber m, none, some (s.fresh, bytes)⟩
        ⟨s₁, none, some (s.fresh, bytes)⟩ →
      Tabled ⟨s₁, none, some (s.fresh, bytes)⟩ ∧ ∀ a, CursorLeads ⟨s₁, none, some (s.fresh, bytes)⟩ a := by
    intro m s₁ split chain
    have begun : Move w .form ⟨s, none, none⟩
      ⟨begunState w s friendNumber m, none, some (s.fresh, bytes)⟩ := .begun long split
    have went := chain.invariant (I := fun v => Orderly w v ∧ ∀ a, CursorLeads v a)
      (fun same move before => ⟨before.1.move obliging.increasing move,
        fun a => cursor_first (before.2 a) before.1 obliging.increasing (same ▸ move)⟩)
      ⟨orderly.move obliging.increasing begun, fun a => cursor_begun orderly paced split⟩
    exact ⟨went.1.tabled, went.2⟩
  have march : ∀ {m : MsgOutbound} {s₁ : State}, splitMessage s.markerMaxSizeEver bytes
      w.params.maxMessageLength (max (w.clock s.ticks) (s.lastMsgId + 1)) = .ok m →
      sendFrom w s.fresh m.numParts 0 (begunState w s friendNumber m) = .ok s₁ →
      ∃ m' stop, s₁.heap s.fresh = some m' ∧ Marched { m with friendNumber } m' 0 stop ∧
        stop ≤ m.numParts ∧ (w.params.fragmentsAtATime ≤ m'.numTransit ∨ stop = m.numParts) ∧
          (stop = 0 ∨ 0 < w.params.fragmentsAtATime) ∧ ∀ a ≠ s.fresh, s₁.heap a = s.heap a := by
    intro m s₁ split went
    have unsent := unsent_of_split split
    have here : (begunState w s friendNumber m).heap s.fresh = some { m with friendNumber } :=
      Function.update_self ..
    obtain ⟨m', stop, found, marched, bound, sated, open_, others⟩ := sendFrom_marches obliging here unsent.shaped
      (Nat.zero_add _) (fun k before => absurd before (Nat.not_lt_zero k)) went
    exact ⟨m', stop, found, marched, bound, sated, open_, fun a other =>
      (others a other).trans (Function.update_of_ne other _ _)⟩
  cases sends with
  | @opened s₁ m m₁ receipt db split went window found taken _ _ _ same =>
    obtain ⟨tabled, cursors⟩ := first split window
    obtain ⟨m', stop, found', marched, bound, sated, open_, others⟩ := march split went
    cases found.symm.trans found'
    have unsent := unsent_of_split split
    obtain ⟨shape, numConfirmed, _, out, cursor⟩ := marched
    have reached : m₁.lastSent + 1 = stop := by
      refine cursor.resolve_left ?_
      rintro ⟨_, rfl⟩
      have taken : 0 < m.numTransit := taken
      have none := unsent.numTransit
      omega
    subst same
    refine ⟨fun a => ?_, fun a m' here => ?_⟩
    · refine cursor_kept (cursors a) tabled (fun m' here => ?_) fun k live => ⟨live, rfl⟩
      obtain ⟨mine, same⟩ | ⟨_, here⟩ := heap_update_iff.mp here
      · cases same
        exact ⟨m₁, mine ▸ found, rfl, rfl, fun _ => rfl⟩
      · exact ⟨m', here, rfl, rfl, fun _ => rfl⟩
    · obtain ⟨mine, same⟩ | ⟨other, here⟩ := heap_update_iff.mp here
      · cases same
        have parts : m₁.numParts = m.numParts := shape.numParts
        have unconfirmed : m₁.numConfirmed = 0 := numConfirmed.trans unsent.numConfirmed
        refine ⟨open_.resolve_left (by omega), ?_, ?_, fun i le => out i ?_, sated.imp_right fun all => ?_⟩
        · change m₁.numConfirmed < m₁.numParts
          omega
        · change m₁.lastSent < m₁.numParts
          omega
        · change i ≤ m₁.lastSent at le
          omega
        · change m₁.numParts ≤ m₁.lastSent + 1
          omega
      · exact paced.going a m' ((others a other).symm.trans here)
  | @dropped s₁ m m₁ split went window found none same =>
    obtain ⟨tabled, cursors⟩ := first split window
    obtain ⟨_, _, _, _, _, _, _, others⟩ := march split went
    subst same
    refine ⟨fun a => ?_, fun a m' here => ?_⟩
    · refine cursor_kept (cursors a) tabled (fun m' here => ?_) fun k live => ⟨live, rfl⟩
      obtain ⟨_, none⟩ | ⟨_, here⟩ := heap_update_iff.mp here
      · cases none
      · exact ⟨m', here, rfl, rfl, fun _ => rfl⟩
    · obtain ⟨_, none⟩ | ⟨other, here⟩ := heap_update_iff.mp here
      · cases none
      · exact paced.going a m' ((others a other).symm.trans here)

/-- The cleared record is one nobody waits for any more. -/
theorem Paced.cleared {j : Nat} (tabled : Tabled ⟨s, some j, none⟩)
    (cursors : ∀ a, CursorLeads ⟨s, some j, none⟩ a) (going : ∀ a m, s.heap a = some m → Going w m) :
    Paced w (clearedState s j) := by
  refine ⟨fun a => cursor_kept (cursors a) tabled (same_cursor rfl) fun k live => ?_, going⟩
  obtain ⟨held, other⟩ := live_cleared.mp live
  refine ⟨⟨held, fun same => other (Option.some.inj same).symm⟩, ?_⟩
  change ((s.receipts.clear j).trim j).receipts k = _
  rw [ReceiptTable.receipts_trim, ReceiptTable.receipts_clear_ne other]

/-- The receipt of a part comes in, and its message marches on or is completed. -/
theorem Paced.found {j messageId : Nat} {processed : Bool} (obliging : Obliging w)
    (orderly : Orderly w ⟨s, none, none⟩) (owned : Owned ⟨s, none, none⟩) (paced : Paced w s)
    (proper : messageId ≠ 0) (lookup : s.receipts.findReceipt messageId = some j)
    (held : s.receipts.key j = messageId)
    (ran : tryProcessReceipt w s messageId = .ok (s', processed)) :
    Paced w s' ∧ Chain w Marching ⟨s, none, none⟩ ⟨s', none, none⟩ := by
  rw [tryProcessReceipt_found lookup held] at ran
  obtain ⟨m, found, ran⟩ := bind_ok.mp ran
  obtain ⟨db, stored, ran⟩ := bind_ok.mp ran
  obtain ⟨s₁, went, ran⟩ := bind_ok.mp ran
  cases ran
  have receipt : Marching (.receipt 0 messageId) := ⟨nofun, nofun⟩
  have clear : Move w (.receipt 0 messageId) ⟨s₁, some j, none⟩ ⟨clearedState s₁ j, none, none⟩ := .cleared
  have found := msgAt_ok.mp found
  have heldJ : s.receipts.key j ≠ 0 := held ▸ proper
  have confirm : Move w (.receipt 0 messageId) ⟨s, none, none⟩ ⟨confirmedState s j m db, some j, none⟩ :=
    .confirmed proper lookup held found stored
  have orderly₁ := orderly.move obliging.increasing confirm
  have owned₁ := owned.move orderly obliging.increasing (fun _ => Label.noConfusion) confirm
  have others : ∀ a ≠ (s.receipts.receipts j).msg, (confirmedState s j m db).heap a = s.heap a :=
    fun a other => Function.update_of_ne other _ _
  have here : (confirmedState s j m db).heap (s.receipts.receipts j).msg =
      some (partConfirmed m (s.receipts.receipts j).partNo) := Function.update_self ..
  have cursors : ∀ a, CursorLeads ⟨confirmedState s j m db, some j, none⟩ a := by
    intro a
    by_cases own : a = (s.receipts.receipts j).msg
    · exact own ▸ (paced.cursors _).confirmed orderly heldJ found
    · exact cursor_kept (paced.cursors a) orderly.tabled (same_cursor (others a own))
        fun k live => ⟨⟨live.1, nofun⟩, rfl⟩
  unfold proceed at went
  split at went
  · rename_i more
    have going := paced.going _ m found
    have inside : (s.receipts.receipts j).partNo - 1 < m.fragments.length :=
      orderly.issued.place heldJ found
    have out : ∀ i ≤ (partConfirmed m (s.receipts.receipts j).partNo).lastSent,
        ¬ Blank (partConfirmed m (s.receipts.receipts j).partNo) i := by
      intro i le
      rw [Blank, part_partConfirmed inside]
      split
      · exact fun blank => Bool.false_ne_true blank.2.symm
      · exact going.out i le
    obtain ⟨⟨m', found', going'⟩, others₁, chain⟩ := serve_marches obliging (some j) here
      ((orderly₁.issued.shaped here).1) going.within out going.window more went
    have served := cursor_served obliging.increasing orderly₁ owned₁ cursors chain
    refine ⟨.cleared (orderly₁.chain obliging.increasing chain).tabled served fun a m₁ here₁ => ?_,
      .cons receipt confirm ((chain.mono fun _ => marching_served).trans (.single receipt clear))⟩
    by_cases own : a = (s.receipts.receipts j).msg
    · cases (own ▸ here₁).symm.trans found'
      exact going'
    · exact paced.going a m₁ (((others₁ a own).trans (others a own)).symm.trans here₁)
  · rename_i all
    obtain ⟨m', found', went⟩ := bind_ok.mp went
    cases here.symm.trans (msgAt_ok.mp found')
    cases went
    have gone : ∀ {a m'}, (completedState (confirmedState s j m db) (s.receipts.receipts j).msg
        (partConfirmed m (s.receipts.receipts j).partNo)).heap a = some m' →
        a ≠ (s.receipts.receipts j).msg ∧ (confirmedState s j m db).heap a = some m' := by
      intro a m' here
      obtain ⟨_, none⟩ | both := heap_update_iff.mp here
      · cases none
      · exact both
    have complete : Move w (.receipt 0 messageId) ⟨confirmedState s j m db, some j, none⟩
      ⟨completedState (confirmedState s j m db) (s.receipts.receipts j).msg
        (partConfirmed m (s.receipts.receipts j).partNo), some j, none⟩ :=
      .completed here (Nat.le_of_not_lt all)
    refine ⟨.cleared (orderly₁.move obliging.increasing complete).tabled (fun a => ?_) fun a m' here' => ?_,
      .cons receipt confirm (.cons receipt complete (.single receipt clear))⟩
    · refine cursor_kept (cursors a) orderly₁.tabled (fun m' here' => ?_) fun k live => ⟨live, rfl⟩
      exact ⟨m', (gone here').2, rfl, rfl, fun _ => rfl⟩
    · exact paced.going a m' ((others a (gone here').1).symm.trans (gone here').2)

/-! ## The periodic pass -/

theorem sendFrom_idle {count : Nat} (found : s.heap msg = some m)
    (idle : w.params.fragmentsAtATime ≤ m.numTransit ∨ count = 0) : sendFrom w msg count i s = .ok s := by
  cases count with
  | zero => rfl
  | succ count =>
    have full := idle.resolve_right (Nat.succ_ne_zero count)
    rw [sendFrom_succ found, if_neg (by omega)]

theorem serve_idle (obliging : Obliging w) (found : s.heap msg = some m) (going : Going w m) :
    serve w s msg = .ok { s with polls := s.polls + 1 } := by
  have found' : ({ s with polls := s.polls + 1 } : State).heap msg = some m := found
  have next : sendFrom w msg (m.numParts - (m.lastSent + 1)) (m.lastSent + 1)
      { s with polls := s.polls + 1 } = .ok { s with polls := s.polls + 1 } :=
    sendFrom_idle found' (going.sated.imp_right fun all => by omega)
  have failed : sendFailed w msg m.numParts 0 { s with polls := s.polls + 1 } =
      .ok { s with polls := s.polls + 1 } := by
    refine sendFailed_idle found' (going.sated.imp_right fun all k inside => going.out k ?_)
      (Nat.le_of_eq (Nat.zero_add _))
    omega
  unfold serve isFriendOnline
  dsimp only
  rw [if_pos (obliging.online _)]
  exact bind_ok.mpr ⟨m, msgAt_ok.mpr found', bind_ok.mpr ⟨_, next, failed⟩⟩

theorem sendMore_idle (obliging : Obliging w) {msgs : List Nat} : ∀ {s : State},
    (∀ a ∈ msgs, ∃ m, s.heap a = some m ∧ Going w m) →
      msgs.foldlM (serve w) s = .ok { s with polls := s.polls + msgs.length } := by
  induction msgs with
  | nil => exact fun _ => rfl
  | cons msg rest ih =>
    intro s going
    obtain ⟨m, found, goes⟩ := going msg List.mem_cons_self
    have served := serve_idle obliging found goes
    rw [List.foldlM_cons]
    refine bind_ok.mpr ⟨_, served, ?_⟩
    have rested := @ih { s with polls := s.polls + 1 } fun a member => going a (List.mem_cons_of_mem _ member)
    rw [rested, List.length_cons]
    simp only [Nat.add_assoc, Nat.add_comm 1]

/-- What has expired is sent again at once, and no window changes. -/
theorem Going.resent {receipt partNo : Nat} (going : Going w m) (inside : partNo - 1 < m.fragments.length)
    (some : receipt ≠ 0) (waits : 0 < m.numTransit) (small : m.numTransit < 2 ^ 32) :
    Going w (partSent (partLost m) (partNo - 1) receipt) := by
  have transit : (partSent (partLost m) (partNo - 1) receipt).numTransit = m.numTransit := by
    change (toUnsigned ((m.numTransit : Int) - 1) + 1) % 2 ^ 32 = m.numTransit
    rw [show ((m.numTransit : Int) - 1) = ((m.numTransit - 1 : Nat) : Int) by omega,
      toUnsigned_of_lt (by omega)]
    omega
  have inside' : partNo - 1 < (partLost m).fragments.length := inside
  refine ⟨going.window, going.unfinished, going.within, fun i le => ?_, ?_⟩
  · rw [Blank, part_partSent inside']
    split
    · exact fun blank => some blank.1
    · exact going.out i le
  · rw [transit]
    exact going.sated

/-- An expiry pass leaves every message going. -/
theorem Paced.expires (obliging : Obliging w) (orderly : Orderly w ⟨s, none, none⟩)
    (owned : Owned ⟨s, none, none⟩) (windowed : Windowed w ⟨s, none, none⟩) (paced : Paced w s)
    (expires : Expires w s s') : Paced w s' := by
  refine ⟨fun a => (tidy_expires obliging.increasing orderly owned expires).2 a (paced.cursors a), ?_⟩
  refine (expires.chain.invariant
    (I := fun v => Orderly w v ∧ Windowed w v ∧ ∀ a m, v.s.heap a = some m → Going w m) ?_
    ⟨orderly, windowed, paced.going⟩).2.2
  rintro label v v' admitted move ⟨orderly, windowed, going⟩
  refine ⟨orderly.move obliging.increasing move,
    windowed.move obliging.small orderly obliging.increasing move, fun a m' here => ?_⟩
  rcases admitted with rfl | ⟨now, rfl⟩
  · cases move <;> exact going a m' here
  · cases move with
    | lost _ _ _ refused => exact absurd refused (obliging.taken _)
    | @resent s now j m held late found accepted =>
      obtain ⟨mine, same⟩ | ⟨other, here⟩ := heap_update_iff.mp here
      · cases same
        have inside : (s.receipts.receipts j).partNo - 1 < m.fragments.length :=
          orderly.issued.place held found
        obtain ⟨transit, bound⟩ := windowed _ m found
        have waits : 0 < (waiting ⟨s, none, none⟩ (s.receipts.receipts j).msg).card :=
          Finset.card_pos.mpr ⟨j, (mem_waiting orderly.tabled).mpr ⟨⟨held, nofun⟩, rfl⟩⟩
        have small := obliging.small
        exact (going _ m found).resent inside accepted (by omega) (by omega)
      · have here : s.heap a = some m' := (Function.update_of_ne other _ _).symm.trans here
        exact going a m' here

/-- Once the expired records are dealt with, a periodic pass only asks whether
the friends are connected. -/
theorem periodic_expires (obliging : Obliging w) (orderly : Orderly w ⟨s, none, none⟩)
    (owned : Owned ⟨s, none, none⟩) (windowed : Windowed w ⟨s, none, none⟩) (paced : Paced w s)
    (ran : doPeriodic w s = .ok s') : ∃ s₁ polls, Expires w s s₁ ∧ Paced w s₁ ∧ s' = { s₁ with polls } := by
  obtain ⟨s₁, resent, ran⟩ := bind_ok.mp ran
  have expires := resendExpiredReceipts_expires resent
  have paced₁ := paced.expires obliging orderly owned windowed expires
  have linked := (orderly.chain obliging.increasing expires.chain).linked
  have idle := @sendMore_idle w obliging s₁.msgsOutbound s₁ fun a member => by
    obtain ⟨m, found⟩ := linked.held a member
    exact ⟨m, found, paced₁.going a m found⟩
  cases idle.symm.trans ran
  exact ⟨s₁, _, expires, paced₁, rfl⟩

/-! ## Every call -/

structure Steady (w : World) (s : State) : Prop where
  orderly : Orderly w ⟨s, none, none⟩
  owned : Owned ⟨s, none, none⟩
  stored : Stored ⟨s, none, none⟩
  windowed : Windowed w ⟨s, none, none⟩
  anchored : Anchored ⟨s, none, none⟩
  covered : Covered ⟨s, none, none⟩ none
  paced : Paced w s

theorem heard_proper {op : Op} (obliging : Obliging w) (heard : Heard w s op) : Proper op := by
  cases op with
  | receipt friendNumber messageId =>
    obtain ⟨i, _, rfl⟩ := heard.1
    exact obliging.taken i
  | send | periodic => trivial

/-- Every cursor leads, so the accounts stay right. -/
theorem Steady.leading {op : Op} (steady : Steady w s) (proper : Proper op) : Leading w s op := by
  cases op with
  | send => trivial
  | receipt friendNumber messageId => exact ⟨proper, fun _ _ _ _ _ => steady.paced.cursors _⟩
  | periodic => exact fun p _ _ => steady.paced.cursors p.1

/-- The search finds the record of a receipt that is not hidden. -/
theorem lookup_of_heard {friendNumber messageId : Nat} (obliging : Obliging w)
    (orderly : Orderly w ⟨s, none, none⟩) (heard : Heard w s (.receipt friendNumber messageId))
    (held : s.receipts.key k = messageId) : s.receipts.findReceipt messageId = some k := by
  have proper : messageId ≠ 0 := heard_proper obliging heard
  have occupied : s.receipts.key k ≠ 0 := held ▸ proper
  have visible := heard.2 k (orderly.tabled.ordered.inside k occupied).2 held
  subst held
  exact (ReceiptTable.findReceipt_iff orderly.tabled.ordered proper).mpr visible

/-- Between the expiry passes the messages march on. -/
theorem Steady.paced_step {op : Op} (obliging : Obliging w) (steady : Steady w s) (proper : Proper op)
    (ran : step w op s = .ok s') :
    Paced w s' ∧ (op ≠ .periodic → Chain w Marching ⟨s, none, none⟩ ⟨s', none, none⟩) := by
  cases op with
  | send friendNumber type bytes beyond =>
    refine ⟨?_, fun _ => (send_chain ran).mono fun label sending => ?_⟩
    · rcases send_cases ran with rfl | ⟨call, _, rfl⟩ | ⟨long, sends⟩
      · exact steady.paced
      · exact steady.paced.frame rfl rfl
      · exact steady.paced.long obliging steady.orderly long sends
    · rcases sending with rfl | rfl | rfl <;> exact ⟨nofun, nofun⟩
  | receipt friendNumber messageId =>
    by_cases known : ∃ j, s.receipts.findReceipt messageId = some j ∧ s.receipts.key j = messageId
    · obtain ⟨⟨s₁, processed⟩, tried, ran⟩ := bind_ok.mp ran
      obtain ⟨j, lookup, held⟩ := known
      obtain ⟨paced, chain⟩ := steady.paced.found obliging steady.orderly steady.owned proper lookup held tried
      obtain rfl : processed = true := by
        rcases tryProcessReceipt_cases tried with ⟨missing, _⟩ | ⟨done, _⟩
        · exact absurd held (missing j lookup)
        · exact done
      cases ran
      exact ⟨paced, fun _ => chain⟩
    · have missing : NotFound s.receipts messageId := fun j lookup held => known ⟨j, lookup, held⟩
      rcases receipt_cases ran with ⟨_, _, rfl⟩ | ⟨_, outside, rfl⟩ | processed
      · exact ⟨steady.paced, fun _ => .refl⟩
      · have passed : Move w (.receipt friendNumber messageId) ⟨s, none, none⟩ _ := .passed missing outside
        have marching : Marching (.receipt friendNumber messageId) := ⟨nofun, nofun⟩
        exact ⟨steady.paced.frame rfl rfl, fun _ => .single marching passed⟩
      · obtain ⟨j, _, lookup, held, _⟩ := processed.events
        exact absurd held (missing j lookup)
  | periodic =>
    obtain ⟨s₁, polls, _, paced, rfl⟩ := periodic_expires obliging steady.orderly steady.owned steady.windowed
      steady.paced ran
    exact ⟨paced.frame rfl rfl, fun other => absurd rfl other⟩

/-- Whatever is called, with friends that are connected and a base library that
takes everything. -/
theorem Steady.step {op : Op} (obliging : Obliging w) (steady : Steady w s) (proper : Proper op)
    (ran : step w op s = .ok s') : Steady w s' := by
  have settled : Settled w s := ⟨steady.orderly, steady.owned, steady.stored, steady.windowed, steady.anchored⟩
  obtain ⟨orderly, owned, stored, windowed, anchored⟩ :=
    settled.step obliging.increasing obliging.small (steady.leading proper) ran
  have covered := ((step_chain proper ran).invariant (I := fun v => Orderly w v ∧ Covered v none)
    (fun _ move before => ⟨before.1.move obliging.increasing move,
      before.2.move before.1 obliging.increasing (fun _ _ => obliging.taken _) move⟩)
    ⟨steady.orderly, steady.covered⟩).2
  exact ⟨orderly, owned, stored, windowed, anchored, covered,
    (steady.paced_step obliging proper ran).1⟩

theorem steady_initial : Steady w (initialState w) := by
  obtain ⟨orderly, owned, stored, windowed, anchored⟩ := @settled_initial w
  refine ⟨orderly, owned, stored, windowed, anchored, fun a m i _ found => ?_, fun a m found => ?_,
    fun a m found => ?_⟩
  all_goals cases found

/-- When nobody is waited for, there is no message. -/
theorem Steady.finished (steady : Steady w s) (quiet : ∀ k, s.receipts.key k = 0) (a : Nat) :
    s.heap a = none := by
  cases found : s.heap a with
  | none => rfl
  | some m =>
    have going := steady.paced.going a m found
    have silent : waiting ⟨s, none, none⟩ a = ∅ := by
      refine Finset.filter_eq_empty_iff.mpr ?_
      rintro k _ ⟨live, _⟩
      exact live.1 (quiet k)
    have transit : m.numTransit = 0 := by
      rw [(steady.windowed a m found).1, silent]
      rfl
    have last := going.sated.resolve_left (by have := going.window; omega)
    have all : confirmedParts m = Finset.range m.numParts := by
      refine Finset.filter_true_of_mem fun i inside => ?_
      have inside := Finset.mem_range.mp inside
      by_contra open_
      have unconfirmed : (part m i).confirmed = false := Bool.eq_false_iff.mpr open_
      have sent : (part m i).receipt ≠ 0 := fun none => going.out i (by omega) ⟨none, unconfirmed⟩
      obtain ⟨k, live, _⟩ := steady.covered a m i nofun found sent unconfirmed
      exact live.1 (quiet k)
    have counted : m.numConfirmed = (confirmedParts m).card := steady.owned.counted a m found
    have unfinished := going.unfinished
    rw [counted, all, Finset.card_range] at unfinished
    exact absurd unfinished (Nat.lt_irrefl _)

/-! ## Receipts that have come in -/

/-- The records are those of a state before and of calls made since. -/
structure Since (w : World) (s : State) (v : View) : Prop where
  calls : s.base.length ≤ v.s.base.length
  keys : ∀ k, v.s.receipts.key k ≠ 0 → s.receipts.key k = v.s.receipts.key k ∨
    ∃ n, s.base.length ≤ n ∧ w.answer n = v.s.receipts.key k

theorem Since.frame {t t' : State} (since : Since w s ⟨t, taken, forming⟩)
    (base : t.base.length ≤ t'.base.length) (receipts : t'.receipts = t.receipts) :
    Since w s ⟨t', taken', forming'⟩ := by
  refine ⟨Nat.le_trans since.calls base, fun k held => ?_⟩
  change s.receipts.key k = t'.receipts.key k ∨ ∃ n, _ ∧ w.answer n = t'.receipts.key k
  have held : t'.receipts.key k ≠ 0 := held
  rw [receipts] at held ⊢
  exact since.keys k held

theorem Since.sent {t : State} (since : Since w s ⟨t, taken, forming⟩)
    (above : ∀ j, t.receipts.key j < w.answer t.base.length) :
    Since w s ⟨sentState w t msg m i m', taken', forming'⟩ := by
  refine ⟨Nat.le_trans since.calls (by simp [sentState]), fun k held => ?_⟩
  change s.receipts.key k = (sentState w t msg m i m').receipts.key k ∨
    ∃ n, _ ∧ w.answer n = (sentState w t msg m i m').receipts.key k
  have held : (sentState w t msg m i m').receipts.key k ≠ 0 := held
  rw [sentState_key above] at held ⊢
  split
  · exact .inr ⟨t.base.length, since.calls, rfl⟩
  · rename_i old
    rw [if_neg old] at held
    exact since.keys k held

theorem Since.lost {t : State} {j : Nat} (since : Since w s ⟨t, none, none⟩) :
    Since w s ⟨lostState t j msg m, none, none⟩ := by
  refine ⟨since.calls, fun k held => ?_⟩
  change (t.receipts.clear j).key k ≠ 0 at held
  change s.receipts.key k = (t.receipts.clear j).key k ∨ ∃ n, _ ∧ w.answer n = (t.receipts.clear j).key k
  rw [ReceiptTable.key_clear] at held ⊢
  split
  · rename_i own
    exact absurd (if_pos own) held
  · rename_i other
    rw [if_neg other] at held
    exact since.keys k held

theorem Since.move (since : Since w s v) (orderly : Orderly w v) (increasing : Increasing w)
    (move : Move w label v v') : Since w s v' := by
  cases move with
  | idle | passed | begun | opened | dropped | confirmed | completed =>
    exact since.frame (Nat.le_refl _) rfl
  | short | firstRefused | nextRefused | failedRefused =>
    exact since.frame (by simp [refusedState]) rfl
  | firstSent _ _ _ _ _ accepted | nextSent _ _ _ _ accepted | failedSent _ _ _ _ accepted =>
    exact since.sent (orderly.above increasing accepted)
  | @lost t _ j m =>
    have lost : Since w s ⟨lostState t j (t.receipts.receipts j).msg m, none, none⟩ := since.lost
    exact lost.frame (by simp [refusedState, lostState]) rfl
  | @resent t now j m _ _ found accepted =>
    have issued : Issued w t := orderly.issued
    exact since.lost.sent (above_of_increasing increasing (issued.lost j found) accepted)
  | @cleared t _ _ j =>
    refine ⟨since.calls, fun k held => ?_⟩
    change ((t.receipts.clear j).trim j).key k ≠ 0 at held
    change s.receipts.key k = ((t.receipts.clear j).trim j).key k ∨
      ∃ n, _ ∧ w.answer n = ((t.receipts.clear j).trim j).key k
    rw [ReceiptTable.key_trim, ReceiptTable.key_clear] at held ⊢
    split
    · rename_i own
      exact absurd (if_pos own) held
    · rename_i other
      rw [if_neg other] at held
      exact since.keys k held

theorem Since.chain {admitted : Label → Prop} (orderly : Orderly w v) (increasing : Increasing w)
    (chain : Chain w admitted v v') : Since w v.s v' := by
  refine (chain.invariant (I := fun v' => Orderly w v' ∧ Since w v.s v') ?_
    ⟨orderly, Nat.le_refl _, fun k _ => .inl rfl⟩).2
  rintro label v₁ v₂ _ move ⟨orderly, since⟩
  exact ⟨orderly.move increasing move, since.move orderly increasing move⟩

/-- No record waits for a receipt that has come in. -/
def Answered (w : World) (ops : List Op) (s : State) : Prop :=
  ∀ friendNumber messageId, .receipt friendNumber messageId ∈ ops →
    (∃ i < s.base.length, w.answer i = messageId) ∧ ∀ k, s.receipts.key k ≠ messageId

/-- A number given before is none that is given later. -/
theorem Since.unanswered {messageId : Nat} (since : Since w s v) (obliging : Obliging w)
    (given : ∃ i < s.base.length, w.answer i = messageId) (gone : s.receipts.key k ≠ messageId) :
    v.s.receipts.key k ≠ messageId := by
  obtain ⟨i, inside, rfl⟩ := given
  intro held
  rcases since.keys k (held ▸ obliging.taken i) with same | ⟨n, later, new⟩
  · exact gone (same.trans held)
  · have := obliging.larger i n (by omega)
    omega

theorem Answered.step {ops : List Op} {op : Op} (obliging : Obliging w) (steady : Steady w s)
    (answered : Answered w ops s) (heard : Heard w s op) (ran : step w op s = .ok s') :
    Answered w (op :: ops) s' := by
  have proper := heard_proper obliging heard
  have since := Since.chain steady.orderly obliging.increasing (step_chain proper ran)
  have grown : s.base.length ≤ s'.base.length := since.calls
  intro friendNumber messageId member
  rcases List.mem_cons.mp member with rfl | earlier
  · obtain ⟨i, inside, given⟩ := heard.1
    refine ⟨⟨i, by omega, given⟩, fun k => ?_⟩
    by_cases held : s.receipts.key k = messageId
    · have lookup := lookup_of_heard obliging steady.orderly heard held
      obtain ⟨⟨s₁, processed⟩, tried, ran⟩ := bind_ok.mp ran
      rw [tryProcessReceipt_found lookup held] at tried
      obtain ⟨_, _, tried⟩ := bind_ok.mp tried
      obtain ⟨_, _, tried⟩ := bind_ok.mp tried
      obtain ⟨s₂, _, tried⟩ := bind_ok.mp tried
      cases tried
      cases ran
      change ((s₂.receipts.clear k).trim k).key k ≠ messageId
      rw [ReceiptTable.key_trim, ReceiptTable.key_clear, if_pos rfl]
      exact Ne.symm proper
    · exact since.unanswered obliging ⟨i, inside, given⟩ held
  · obtain ⟨⟨i, inside, given⟩, gone⟩ := answered friendNumber messageId earlier
    exact ⟨⟨i, by omega, given⟩, fun k => since.unanswered obliging ⟨i, inside, given⟩ (gone k)⟩

/-! ## What the client hears -/

/-- A message that is there has not been completed, and one that is gone has
been completed once. -/
structure Closing (v : View) : Prop where
  silent : ∀ a, (∃ m, v.s.heap a = some m) ∨ v.s.fresh ≤ a → completions v.s a = []
  returned : ∀ a friendNumber id bytes n, .returned a friendNumber id bytes n ∈ v.s.events →
    (∃ m, v.s.heap a = some m ∧ m.receipt = n ∧ m.friendNumber = friendNumber) ∨
      completions v.s a = [(friendNumber, n)]

theorem Closing.initial : Closing ⟨initialState w, none, none⟩ where
  silent _ _ := rfl
  returned _ _ _ _ _ member := by cases member

theorem completions_append (new : List Event) (events : s'.events = new ++ s.events)
    (none : ∀ friendNumber n, .completed a friendNumber n ∉ new) : completions s' a = completions s a := by
  unfold completions
  rw [events, List.filterMap_append]
  have silent : new.filterMap (completionOf a) = [] := by
    refine List.filterMap_eq_nil_iff.mpr fun event member => ?_
    cases event with
    | completed b friendNumber n =>
      refine if_neg ?_
      rintro rfl
      exact none friendNumber n member
    | _ => rfl
  rw [silent, List.nil_append]

theorem completions_cons_own {friendNumber n : Nat}
    (events : s'.events = .completed a friendNumber n :: s.events) :
    completions s' a = (friendNumber, n) :: completions s a := by
  have own : completionOf a (.completed a friendNumber n) = some (friendNumber, n) := if_pos rfl
  unfold completions
  rw [events, List.filterMap_cons_some own]

theorem Closing.quiet (closing : Closing v) (kept : Kept v.s v'.s) : Closing v' := by
  obtain ⟨new, events, noReturn, noCompletion⟩ := kept.events
  have same : ∀ a, completions v'.s a = completions v.s a :=
    fun a => completions_append new events (noCompletion a)
  refine ⟨fun a there => ?_, fun a f id bytes n member => ?_⟩
  · rw [same]
    refine closing.silent a (there.imp ?_ fun beyond => kept.fresh ▸ beyond)
    rintro ⟨m', here⟩
    obtain ⟨m, found, _⟩ := kept.back here
    exact ⟨m, found⟩
  · rw [events] at member
    rw [same]
    have earlier := (List.mem_append.mp member).resolve_left (noReturn a f id bytes n)
    refine (closing.returned a f id bytes n earlier).imp_left ?_
    rintro ⟨m, found, receipt, friend⟩
    obtain ⟨m', here⟩ := kept.forth found
    obtain ⟨m₁, found₁, shape, receipt', _⟩ := kept.back here
    cases found.symm.trans found₁
    exact ⟨m', here, receipt'.trans receipt, shape.friendNumber.trans friend⟩

theorem Closing.change (closing : Closing v) (issued : Issued w v.s) (told : Told v)
    (change : Change w label v v') : Closing v' := by
  cases change with
  | quiet kept => exact closing.quiet kept
  | @begun s friendNumber message m _ split =>
    refine ⟨fun a there => ?_, fun a f id bytes n member => ?_⟩
    · refine closing.silent a ?_
      rcases there with ⟨m', here⟩ | beyond
      · obtain ⟨mine, _⟩ | ⟨_, here⟩ := heap_update_iff.mp here
        · exact .inr (Nat.le_of_eq mine.symm)
        · exact .inl ⟨m', here⟩
      · exact .inr (Nat.le_of_succ_le beyond)
    · refine (closing.returned a f id bytes n member).imp_left ?_
      rintro ⟨m', found, both⟩
      have below : a < s.fresh := (told.returned a f id bytes n member).1
      exact ⟨m', (Function.update_of_ne (Nat.ne_of_lt below) _ _).trans found, both⟩
  | @opened s msg receipt type message m db found =>
    have same : ∀ a, completions (openedState s msg m type message receipt db) a = completions s a :=
      fun a => completions_append [_] rfl (by simp)
    refine ⟨fun a there => ?_, fun a f id bytes n member => ?_⟩
    · refine (same a).trans (closing.silent a (there.imp_left ?_))
      rintro ⟨m', here⟩
      obtain ⟨mine, _⟩ | ⟨_, here⟩ := heap_update_iff.mp here
      · exact ⟨m, mine ▸ found⟩
      · exact ⟨m', here⟩
    · rcases List.mem_cons.mp member with now | earlier
      · cases now
        exact .inl ⟨_, Function.update_self .., rfl, rfl⟩
      · have other : a ≠ msg := by
          rintro rfl
          exact (told.returned a f id bytes n earlier).2.1 message rfl
        refine (closing.returned a f id bytes n earlier).imp ?_ (same a).trans
        rintro ⟨m', here, both⟩
        exact ⟨m', (Function.update_of_ne other _ _).trans here, both⟩
  | @dropped s msg message m found =>
    refine ⟨fun a there => closing.silent a (there.imp_left ?_), fun a f id bytes n member => ?_⟩
    · rintro ⟨m', here⟩
      obtain ⟨_, none⟩ | ⟨_, here⟩ := heap_update_iff.mp here
      · cases none
      · exact ⟨m', here⟩
    · have other : a ≠ msg := by
        rintro rfl
        exact (told.returned a f id bytes n member).2.1 message rfl
      refine (closing.returned a f id bytes n member).imp_left ?_
      rintro ⟨m', here, both⟩
      exact ⟨m', (Function.update_of_ne other _ _).trans here, both⟩
  | @completed s _ _ j m found =>
    have other : ∀ a ≠ (s.receipts.receipts j).msg,
        completions (completedState s (s.receipts.receipts j).msg m) a = completions s a :=
      fun a different => completions_append [_] rfl (by simp [different])
    have own := @completions_cons_own s (completedState s (s.receipts.receipts j).msg m) _ _ _ rfl
    rw [closing.silent _ (.inl ⟨m, found⟩)] at own
    refine ⟨fun a there => ?_, fun a f id bytes n member => ?_⟩
    · rcases there with ⟨m', here⟩ | beyond
      · obtain ⟨_, none⟩ | ⟨different, here⟩ := heap_update_iff.mp here
        · cases none
        · exact (other a different).trans (closing.silent a (.inl ⟨m', here⟩))
      · have below : (s.receipts.receipts j).msg < s.fresh := issued.below found
        have beyond : s.fresh ≤ a := beyond
        exact (other a (by omega)).trans (closing.silent a (.inr beyond))
    · have earlier := (List.mem_cons.mp member).resolve_left nofun
      have before := closing.returned a f id bytes n earlier
      by_cases different : a = (s.receipts.receipts j).msg
      · subst different
        rcases before with ⟨m', here, rfl, rfl⟩ | done
        · cases found.symm.trans here
          exact .inr own
        · rw [closing.silent _ (.inl ⟨m, found⟩)] at done
          cases done
      · refine before.imp ?_ (other a different).trans
        rintro ⟨m', here, both⟩
        exact ⟨m', (Function.update_of_ne different _ _).trans here, both⟩

/-- What is passed on to the client is no number of its range. -/
def PassedOutside (w : World) (v : View) : Prop :=
  ∀ friendNumber n, .passed friendNumber n ∈ v.s.events → ¬ InRange w.params n

theorem PassedOutside.move (passed : PassedOutside w v) (move : Move w label v v') : PassedOutside w v' := by
  cases move with
  | passed _ outside =>
    intro friendNumber n member
    rcases List.mem_cons.mp member with now | earlier
    · cases now
      exact outside
    · exact passed friendNumber n earlier
  | opened | confirmed | completed =>
    exact fun friendNumber n member => passed friendNumber n ((List.mem_cons.mp member).resolve_left nofun)
  | _ => exact passed

/-! ## Runs -/

/-- The receipts of all fragments have come in. -/
def AllReceived (w : World) (ops : List Op) (s : State) : Prop :=
  ∀ i call, s.base[i]? = some call → call.part ≠ none → ∃ friendNumber, .receipt friendNumber (w.answer i) ∈ ops

/-- Every message was completed, once and under its number, and none is left. -/
structure AllCompleted (s : State) : Prop where
  once : ∀ a friendNumber id bytes n, .returned a friendNumber id bytes n ∈ s.events →
    completions s a = [(friendNumber, n)] ∧ ∀ friendNumber', .passed friendNumber' n ∉ s.events
  freed : ∀ a, s.heap a = none
  empty : s.msgsOutbound = []

/-- What the events say in every run. -/
structure Reported (w : World) (v : View) : Prop where
  orderly : Orderly w v
  told : Told v
  closing : Closing v
  logged : Logged w v
  passed : PassedOutside w v

theorem Reported.initial (range : ProperRange w.params) : Reported w ⟨initialState w, none, none⟩ where
  orderly := .initial
  told := .initial
  closing := .initial
  logged := .initial range
  passed _ _ member := by cases member

theorem Reported.move (reported : Reported w v) (increasing : Increasing w)
    (range : ProperRange w.params) (move : Move w label v v') : Reported w v' where
  orderly := reported.orderly.move increasing move
  told := reported.told.change reported.orderly.issued
    (reported.orderly.linked.formed reported.orderly.issued) (change_of_move move)
  closing := reported.closing.change reported.orderly.issued reported.told (change_of_move move)
  logged := reported.logged.move range move
  passed := reported.passed.move move

/-- In every run in which the search loses no record, each receipt is processed,
and once those of all fragments have come in every message has been completed. -/
theorem all_completed_of_heard {ops : List Op} (obliging : Obliging w)
    (range : ProperRange w.params) (run : Run (step w) (Heard w) (Started w) ops s) :
    (∀ friendNumber messageId, Heard w s (.receipt friendNumber messageId) →
      ∃ s', step w (.receipt friendNumber messageId) s = .ok s') ∧
    (AllReceived w ops s → AllCompleted s) := by
  have kept : Steady w s ∧ Answered w ops s ∧ Reported w ⟨s, none, none⟩ := by
    induction run with
    | nil started =>
      rw [started_iff.mp started]
      exact ⟨steady_initial, fun _ _ member => absurd member List.not_mem_nil, .initial range⟩
    | cons _ heard ran ih =>
      obtain ⟨steady, answered, reported⟩ := ih
      have chain := step_chain (heard_proper obliging heard) ran
      exact ⟨steady.step obliging (heard_proper obliging heard) ran, answered.step obliging steady heard ran,
        chain.invariant (fun _ move before => before.move obliging.increasing range move) reported⟩
  obtain ⟨steady, answered, reported⟩ := kept
  refine ⟨fun friendNumber messageId heard => ?_, fun all => ?_⟩
  · have proper : messageId ≠ 0 := heard_proper obliging heard
    exact receipt_returns proper friendNumber steady.orderly steady.owned steady.stored steady.anchored
  · have quiet : ∀ k, s.receipts.key k = 0 := by
      intro k
      by_contra held
      obtain ⟨i, call, at_i, part, given⟩ := steady.orderly.issued.recorded k held
      obtain ⟨friendNumber, came⟩ := all i call at_i (by rw [part]; exact Option.some_ne_none _)
      exact (answered friendNumber _ came).2 k given.symm
    have freed := steady.finished quiet
    refine ⟨fun a f id bytes n returned => ⟨?_, fun f' member => ?_⟩, freed, ?_⟩
    · refine (reported.closing.returned a f id bytes n returned).resolve_left ?_
      rintro ⟨m, found, _⟩
      rw [freed a] at found
      cases found
    · exact reported.passed f' n member (reported.logged.returned a f id bytes n returned)
    · refine List.eq_nil_iff_forall_not_mem.mpr fun a member => ?_
      obtain ⟨m, found⟩ := reported.orderly.linked.held a member
      rw [freed a] at found
      cases found

/-- A receipt is one for a call that was made, and no record expires. -/
def Called (w : World) (s : State) : Op → Prop
  | .send .. => True
  | .receipt _ messageId => ∃ i < s.base.length, w.answer i = messageId
  | .periodic => ∀ k < s.receipts.hi, expired w (w.clock s.ticks) (s.receipts.receipts k) = false

instance : DecidablePred (Called w s) := fun op =>
  match op with
  | .send .. => .isTrue trivial
  | .receipt .. => inferInstanceAs (Decidable (∃ i < s.base.length, _))
  | .periodic => inferInstanceAs (Decidable (∀ k < s.receipts.hi, _))

/-- A receipt comes while its record is the first of the table. -/
def FirstInTable (s : State) : Op → Prop
  | .receipt _ messageId => ∀ k < s.receipts.hi, s.receipts.key k = messageId → k = s.receipts.lo
  | _ => True

instance : DecidablePred (FirstInTable s) := fun op =>
  match op with
  | .send .. => .isTrue trivial
  | .receipt .. => inferInstanceAs (Decidable (∀ k < s.receipts.hi, _))
  | .periodic => .isTrue trivial

theorem heard_of_first {op : Op} (called : Called w s op) (first : FirstInTable s op) : Heard w s op := by
  cases op with
  | receipt friendNumber messageId =>
    refine ⟨called, fun k inside held => ?_⟩
    have same := first k inside held
    subst same
    exact not_hidden_first inside
  | send | periodic => exact called

/-- The ids begin behind the client's range, and messages have 64 bytes. -/
def behindRange : World :=
  { scripted { maxMessageLength := 64 } [] [] with answer := fun n => 0x80000000 + n }

theorem obliging_behindRange : Obliging behindRange where
  taken n := by simp [behindRange]
  larger i j before := by simpa [behindRange] using before
  online _ := rfl
  small := by decide

theorem all_completed_of_both_parts : ∃ s,
    Run (step behindRange) (Heard behindRange) (Started behindRange)
      [.receipt 1 0x80000001, .receipt 1 0x80000000, .periodic,
        .send 1 0 (List.replicate 65 1) fun _ => 0] s ∧
    .completed 0 1 0x70000001 ∈ s.events ∧ AllCompleted s := by
  obtain ⟨s, run, checked⟩ := exists_run (step behindRange)
    (fun s op => Called behindRange s op ∧ FirstInTable s op)
    [.send 1 0 (List.replicate 65 1) fun _ => 0, .periodic, .receipt 1 0x80000000,
      .receipt 1 0x80000001]
    (fun s => .completed 0 1 0x70000001 ∈ s.events ∧ s.base.length = 2)
    (started_initialState behindRange) (by decide +kernel)
  obtain ⟨done, calls⟩ := of_decide_eq_true checked
  have run : Run (step behindRange) (Heard behindRange) (Started behindRange) _ s :=
    run.weaken fun s op both => heard_of_first both.1 both.2
  refine ⟨s, run, done, (all_completed_of_heard obliging_behindRange ⟨by decide, by decide⟩ run).2 ?_⟩
  intro i call at_i _
  have inside : i < 2 := calls ▸ (List.getElem?_eq_some_iff.mp at_i).1
  refine ⟨1, ?_⟩
  obtain rfl | rfl : i = 0 ∨ i = 1 := by omega
  · exact .tail _ (.head _)
  · exact .head _

/-- Four parts, of which the last two are the first to be received. -/
def lastTwoFirst : List Op := [.send 1 0 (List.replicate 100 1) fun _ => 0, .receipt 1 0x80000002,
  .receipt 1 0x80000003, .receipt 1 0x80000000, .receipt 1 0x80000001]

/-- The record of the fourth part is not found any more, and the message is
never completed. -/
theorem fourth_part_never_confirmed : ∃ s, Obliging behindRange ∧ ProperRange behindRange.params ∧
    (∀ n, ¬ InRange behindRange.params (behindRange.answer n)) ∧
    Run (step behindRange) (Called behindRange) (Started behindRange) lastTwoFirst.reverse s ∧
    AllReceived behindRange lastTwoFirst.reverse s ∧ ¬ AllCompleted s := by
  obtain ⟨s, run, checked⟩ := exists_run (step behindRange) (Called behindRange) lastTwoFirst
    (fun s => s.msgsOutbound = [0] ∧ s.base.length = 4) (started_initialState behindRange)
    (by decide +kernel)
  obtain ⟨left, calls⟩ := of_decide_eq_true checked
  refine ⟨s, obliging_behindRange, ⟨by decide, by decide⟩, fun n inRange => ?_, run,
    fun i call at_i _ => ⟨1, ?_⟩, fun all => ?_⟩
  · have upper : 0x80000000 + n ≤ 0x7fffffff := inRange.2
    omega
  · have inside : i < 4 := calls ▸ (List.getElem?_eq_some_iff.mp at_i).1
    obtain rfl | rfl | rfl | rfl : i = 0 ∨ i = 1 ∨ i = 2 ∨ i = 3 := by omega
    · exact .tail _ (.head _)
    · exact .head _
    · exact .tail _ (.tail _ (.tail _ (.head _)))
    · exact .tail _ (.tail _ (.head _))
  · have empty := all.empty
    rw [left] at empty
    cases empty

end Defragmenter.Completion
