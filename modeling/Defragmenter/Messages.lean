import Defragmenter.Tracking

/-! Which messages there are. Most moves change a message where it stands;
`Change` names the four that make one, link it, drop it or complete it, so that
an invariant about the messages has five cases and not one for every move. -/
namespace Defragmenter.Messages
open Database Split Receipts Sender Moves Provenance Tracking Runs

/-- The same messages, each the same to the client, and no news of them. -/
structure Kept (s s' : State) : Prop where
  list : s'.msgsOutbound = s.msgsOutbound
  fresh : s'.fresh = s.fresh
  lastMsgId : s'.lastMsgId = s.lastMsgId
  events : ∃ new, s'.events = new ++ s.events ∧
    (∀ a friendNumber id bytes n, .returned a friendNumber id bytes n ∉ new) ∧
      ∀ a friendNumber n, .completed a friendNumber n ∉ new
  back : ∀ {a m'}, s'.heap a = some m' → ∃ m, s.heap a = some m ∧ SameShape m m' ∧
    m'.receipt = m.receipt ∧ m'.type = m.type
  forth : ∀ {a m}, s.heap a = some m → ∃ m', s'.heap a = some m'

inductive Change (w : World) : Label → View → View → Prop where
  | quiet {label : Label} {v v' : View} : Kept v.s v'.s → v'.forming = v.forming →
      Change w label v v'
  | begun {s : State} {friendNumber : Nat} {message : List UInt8} {m : MsgOutbound} :
      w.params.maxMessageLength < message.length →
      splitMessage s.markerMaxSizeEver message w.params.maxMessageLength
        (max (w.clock s.ticks) (s.lastMsgId + 1)) = .ok m →
      Change w .form ⟨s, none, none⟩ ⟨begunState w s friendNumber m, none, some (s.fresh, message)⟩
  | opened {s : State} {msg receipt : Nat} {type : Int} {message : List UInt8} {m : MsgOutbound}
      {db : Db} : s.heap msg = some m →
      avoidPending w.params s.pending (s.msgsOutbound.length + 1)
        (nextReceiptNo w.params s.lastReceipt) = .ok receipt →
      dbInsertOutboundMessage w.limit s.db m.friendNumber type m.id m.id m.numParts message receipt =
        .ok db →
      Change w .form ⟨s, none, some (msg, message)⟩
        ⟨openedState s msg m type message receipt db, none, none⟩
  | dropped {s : State} {msg : Nat} {message : List UInt8} {m : MsgOutbound} :
      s.heap msg = some m →
      Change w .form ⟨s, none, some (msg, message)⟩ ⟨msgOutboundDelete s msg, none, none⟩
  | completed {s : State} {friendNumber messageId j : Nat} {m : MsgOutbound} :
      s.heap (s.receipts.receipts j).msg = some m → m.numParts ≤ m.numConfirmed →
      Change w (.receipt friendNumber messageId) ⟨s, some j, none⟩ ⟨completedState s (s.receipts.receipts j).msg m, some j, none⟩

variable {w : World} {v v' : View} {label : Label} {s s' : State} {msg a : Nat} {m m' : MsgOutbound}

theorem Kept.frame (new : List Event) (list : s'.msgsOutbound = s.msgsOutbound)
    (fresh : s'.fresh = s.fresh) (lastMsgId : s'.lastMsgId = s.lastMsgId)
    (events : s'.events = new ++ s.events)
    (noReturn : ∀ a friendNumber id bytes n, .returned a friendNumber id bytes n ∉ new)
    (noCompletion : ∀ a friendNumber n, .completed a friendNumber n ∉ new)
    (heap : s'.heap = s.heap) : Kept s s' := by
  refine ⟨list, fresh, lastMsgId, ⟨new, events, noReturn, noCompletion⟩, ?_, ?_⟩
  · intro a m here
    exact ⟨m, heap ▸ here, ⟨rfl, rfl, rfl, rfl⟩, rfl, rfl⟩
  · intro a m here
    exact ⟨m, heap ▸ here⟩

/-- One message changes where it stands. -/
theorem Kept.update (new : List Event) (list : s'.msgsOutbound = s.msgsOutbound)
    (fresh : s'.fresh = s.fresh) (lastMsgId : s'.lastMsgId = s.lastMsgId)
    (events : s'.events = new ++ s.events)
    (noReturn : ∀ a friendNumber id bytes n, .returned a friendNumber id bytes n ∉ new)
    (noCompletion : ∀ a friendNumber n, .completed a friendNumber n ∉ new)
    (found : s.heap msg = some m) (shape : SameShape m m') (receipt : m'.receipt = m.receipt)
    (type : m'.type = m.type) (heap : s'.heap = Function.update s.heap msg (some m')) :
    Kept s s' := by
  refine ⟨list, fresh, lastMsgId, ⟨new, events, noReturn, noCompletion⟩, ?_, ?_⟩
  · intro a m₁ here
    rw [heap] at here
    obtain ⟨mine, same⟩ | ⟨_, here⟩ := heap_update_iff.mp here
    · cases same
      exact ⟨m, mine ▸ found, shape, receipt, type⟩
    · exact ⟨m₁, here, ⟨rfl, rfl, rfl, rfl⟩, rfl, rfl⟩
  · intro a m₁ here
    rw [heap]
    exact held_update ⟨m₁, here⟩

theorem change_of_move (move : Move w label v v') : Change w label v v' := by
  have none : ∀ a friendNumber id bytes n, .returned a friendNumber id bytes n ∉ ([] : List Event) := by
    simp
  have none' : ∀ a friendNumber n, .completed a friendNumber n ∉ ([] : List Event) := by
    simp
  cases move with
  | idle | short | firstRefused | nextRefused | failedRefused | cleared =>
    exact .quiet (.frame [] rfl rfl rfl rfl none none' rfl) rfl
  | passed => exact .quiet (.frame [_] rfl rfl rfl rfl (by simp) (by simp) rfl) rfl
  | begun long split => exact .begun long split
  | opened found _ _ free stored => exact .opened found free stored
  | dropped found => exact .dropped found
  | firstSent found | nextSent found =>
    exact .quiet (.update [] rfl rfl rfl rfl none none' found sameShape_sentLast rfl rfl rfl) rfl
  | failedSent found =>
    exact .quiet (.update [] rfl rfl rfl rfl none none' found sameShape_partSent rfl rfl rfl) rfl
  | @lost s now j m _ _ found =>
    have kept : Kept s (lostState s j (s.receipts.receipts j).msg m) :=
      .update [] rfl rfl rfl rfl none none' found sameShape_partLost rfl rfl rfl
    exact .quiet ⟨kept.list, kept.fresh, kept.lastMsgId, kept.events, kept.back, kept.forth⟩ rfl
  | @resent s now j m _ _ found =>
    have shape : SameShape m (partSent (partLost m) ((s.receipts.receipts j).partNo - 1)
        (w.answer s.base.length)) := sameShape_partLost.trans sameShape_partSent
    have heap : ∀ m', Function.update (Function.update s.heap (s.receipts.receipts j).msg
        (some (partLost m))) (s.receipts.receipts j).msg (some m') =
        Function.update s.heap (s.receipts.receipts j).msg (some m') :=
      fun m' => Function.update_idem ..
    exact .quiet (.update [] rfl rfl rfl rfl none none' found shape rfl rfl (heap _)) rfl
  | confirmed _ _ _ found =>
    exact .quiet (.update [_] rfl rfl rfl rfl (by simp) (by simp) found
      sameShape_partConfirmed rfl rfl rfl) rfl
  | completed found all => exact .completed found all

end Defragmenter.Messages
