import Defragmenter.Messages

/-! Which messages are pending. The circular list is the only place that knows,
and `msgsOutboundUnlink` empties it when the first of exactly two messages is
completed. While that does not happen the list holds every message that was
returned and not completed, each under a number of its own. -/
namespace Defragmenter.PendingQuery
open Database Split Receipts Sender Moves Provenance Tracking Messages Runs

/-- `tox_defragmenter_is_receipt_pending`. -/
def isReceiptPending (s : State) (receipt : Nat) : Nat :=
  if s.msgsOutbound.any fun msg => (s.heap msg).any fun m => m.receipt = receipt then 1 else 0

/-- A number was returned for the message, which is not complete yet. -/
def Pending (s : State) (msg receipt : Nat) : Prop :=
  (∃ friendNumber id bytes, .returned msg friendNumber id bytes receipt ∈ s.events) ∧
    ∀ friendNumber n, .completed msg friendNumber n ∉ s.events

/-- The query answers for exactly the pending messages, and tells them apart. -/
structure Exact (s : State) : Prop where
  answer : ∀ r, r ≠ 0 → (isReceiptPending s r = 1 ↔ ∃ msg, Pending s msg r)
  once : ∀ r msg msg', r ≠ 0 → Pending s msg r → Pending s msg' r → msg = msg'

/-- The message is the first of exactly two. -/
def FirstOfTwo (msgsOutbound : List Nat) (msg : Nat) : Prop :=
  msgsOutbound.length = 2 ∧ msgsOutbound.head? = some msg

instance {msgsOutbound : List Nat} {msg : Nat} : Decidable (FirstOfTwo msgsOutbound msg) :=
  inferInstanceAs (Decidable (_ ∧ _))

/-- The receipt does not complete the first of exactly two messages. -/
def KeepsOthers (s : State) : Op → Prop
  | .receipt _ messageId => messageId ≠ 0 ∧ ∀ j ∈ s.receipts.findReceipt messageId,
      s.receipts.key j = messageId → ∀ m ∈ s.heap (s.receipts.receipts j).msg,
        m.numParts ≤ (m.numConfirmed + 1) % 2 ^ 32 →
          ¬ FirstOfTwo s.msgsOutbound (s.receipts.receipts j).msg
  | _ => True

instance {s : State} : DecidablePred (KeepsOthers s) := fun op =>
  match op with
  | .receipt .. => inferInstanceAs (Decidable (_ ≠ 0 ∧ ∀ j ∈ s.receipts.findReceipt _, _ → _))
  | .send .. => .isTrue trivial
  | .periodic => .isTrue trivial

variable {w : World} {v v' : View} {label : Label} {s s' : State} {msg a : Nat} {m m' : MsgOutbound}
  {l : List Nat}

/-- Unlinking takes out its message and nothing else, unless it is the first of two. -/
theorem mem_unlink (nodup : l.Nodup) (rest : ¬ FirstOfTwo l msg) :
    a ∈ msgsOutboundUnlink l msg ↔ a ∈ l ∧ a ≠ msg := by
  refine ⟨(unlink_sublist nodup).2 a, ?_⟩
  rintro ⟨member, different⟩
  cases l with
  | nil => cases member
  | cons first others =>
    by_cases head : msg = first
    · subst head
      have member := (List.mem_cons.mp member).resolve_left different
      cases last : others.getLast? with
      | none => simp_all
      | some z =>
        obtain ⟨front, rfl⟩ := List.getLast?_eq_some_iff.mp last
        have longer : (front ++ [z]).length ≠ 1 := by
          intro one
          exact rest ⟨by rw [List.length_cons, one], rfl⟩
        simp only [msgsOutboundUnlink, last, ↓reduceIte, longer]
        rw [List.dropLast_concat]
        simpa [or_comm] using member
    · simp only [msgsOutboundUnlink, head, ↓reduceIte]
      rcases List.mem_cons.mp member with rfl | later
      · exact List.mem_cons_self
      · exact List.mem_cons_of_mem _ ((List.mem_erase_of_ne different).mpr later)

/-! ## What the events say of the messages -/

structure Told (v : View) : Prop where
  /-- A message that is not under construction has its number returned. -/
  messages : ∀ a m, v.s.heap a = some m → (∃ bytes, v.forming = some (a, bytes)) ∨
    ∃ friendNumber id bytes, .returned a friendNumber id bytes m.receipt ∈ v.s.events
  returned : ∀ a friendNumber id bytes n, .returned a friendNumber id bytes n ∈ v.s.events →
    a < v.s.fresh ∧ (∀ bytes, v.forming ≠ some (a, bytes)) ∧
      ((∃ m, v.s.heap a = some m ∧ m.receipt = n) ∨ ∃ f k, .completed a f k ∈ v.s.events)
  completed : ∀ a friendNumber n, .completed a friendNumber n ∈ v.s.events →
    a < v.s.fresh ∧ v.s.heap a = none

theorem Told.initial : Told ⟨initialState w, none, none⟩ where
  messages _ _ found := by cases found
  returned _ _ _ _ _ member := by cases member
  completed _ _ _ member := by cases member

theorem Told.quiet (told : Told v) (kept : Kept v.s v'.s) (forming : v'.forming = v.forming) :
    Told v' := by
  obtain ⟨new, events, noReturn, noCompletion⟩ := kept.events
  refine ⟨fun a m' here => ?_, fun a f id b n member => ?_, fun a f n member => ?_⟩
  · obtain ⟨m, found, _, receipt, _⟩ := kept.back here
    rw [forming, receipt, events]
    refine (told.messages a m found).imp_right ?_
    rintro ⟨f, id, b, earlier⟩
    exact ⟨f, id, b, List.mem_append_right _ earlier⟩
  · rw [events] at member
    have earlier := (List.mem_append.mp member).resolve_left (noReturn a f id b n)
    obtain ⟨below, unformed, status⟩ := told.returned a f id b n earlier
    refine ⟨kept.fresh ▸ below, forming ▸ unformed, ?_⟩
    rcases status with ⟨m, found, receipt⟩ | ⟨f', k, done⟩
    · obtain ⟨m', found'⟩ := kept.forth found
      obtain ⟨m₁, found₁, _, same, _⟩ := kept.back found'
      cases found.symm.trans found₁
      exact .inl ⟨m', found', same.trans receipt⟩
    · exact .inr ⟨f', k, events ▸ List.mem_append_right _ done⟩
  · rw [events] at member
    have earlier := (List.mem_append.mp member).resolve_left (noCompletion a f n)
    obtain ⟨below, gone⟩ := told.completed a f n earlier
    refine ⟨kept.fresh ▸ below, ?_⟩
    cases here : v'.s.heap a with
    | none => rfl
    | some m' =>
      obtain ⟨m, found, _⟩ := kept.back here
      rw [gone] at found
      cases found

theorem Told.change (told : Told v) (issued : Issued w v.s)
    (formed : ∀ f, v.forming = some f → f.1 < v.s.fresh) (change : Change w label v v') : Told v' := by
  cases change with
  | quiet kept forming => exact told.quiet kept forming
  | @begun s friendNumber message m _ split =>
    refine ⟨fun a m' here => ?_, fun a f id b n member => ?_, fun a f n member => ?_⟩
    · obtain ⟨mine, _⟩ | ⟨_, here⟩ := heap_update_iff.mp here
      · exact .inl ⟨message, by rw [mine]⟩
      · exact .inr ((told.messages a m' here).resolve_left (by simp))
    · obtain ⟨below, _, status⟩ := told.returned a f id b n member
      have below : a < s.fresh := below
      have other : a ≠ s.fresh := Nat.ne_of_lt below
      refine ⟨Nat.lt_succ_of_lt below, ?_, ?_⟩
      · intro bytes same
        exact other (Prod.mk.inj (Option.some.inj same)).1.symm
      · refine status.imp_left ?_
        rintro ⟨m', found, receipt⟩
        exact ⟨m', (Function.update_of_ne other _ _).trans found, receipt⟩
    · obtain ⟨below, gone⟩ := told.completed a f n member
      have below : a < s.fresh := below
      exact ⟨Nat.lt_succ_of_lt below, (Function.update_of_ne (Nat.ne_of_lt below) _ _).trans gone⟩
  | @opened s msg receipt type message m db found =>
    have below : msg < s.fresh := formed _ rfl
    refine ⟨fun a m' here => .inr ?_, fun a f id b n member => ?_, fun a f n member => ?_⟩
    · obtain ⟨mine, same⟩ | ⟨other, here⟩ := heap_update_iff.mp here
      · cases same
        subst mine
        exact ⟨_, _, message, List.mem_cons_self⟩
      · rcases told.messages a m' here with ⟨_, same⟩ | ⟨f, id, b, earlier⟩
        · cases same
          exact absurd rfl other
        · exact ⟨f, id, b, List.mem_cons_of_mem _ earlier⟩
    · rcases List.mem_cons.mp member with same | earlier
      · cases same
        exact ⟨below, by simp, .inl ⟨_, Function.update_self .., rfl⟩⟩
      · obtain ⟨belowA, unformed, status⟩ := told.returned a f id b n earlier
        have other : a ≠ msg := fun same => unformed message (by rw [same])
        refine ⟨belowA, by simp, ?_⟩
        rcases status with ⟨m', here, receipt'⟩ | ⟨f', k, done⟩
        · exact .inl ⟨m', (Function.update_of_ne other _ _).trans here, receipt'⟩
        · exact .inr ⟨f', k, List.mem_cons_of_mem _ done⟩
    · have earlier := (List.mem_cons.mp member).resolve_left nofun
      obtain ⟨belowA, gone⟩ := told.completed a f n earlier
      have other : a ≠ msg := by
        rintro rfl
        rw [found] at gone
        cases gone
      exact ⟨belowA, (Function.update_of_ne other _ _).trans gone⟩
  | @dropped s msg message m found =>
    refine ⟨fun a m' here => .inr ?_, fun a f id b n member => ?_, fun a f n member => ?_⟩
    · obtain ⟨_, none⟩ | ⟨other, here⟩ := heap_update_iff.mp here
      · cases none
      · rcases told.messages a m' here with ⟨_, same⟩ | earlier
        · cases same
          exact absurd rfl other
        · exact earlier
    · obtain ⟨below, unformed, status⟩ := told.returned a f id b n member
      have other : a ≠ msg := fun same => unformed message (by rw [same])
      refine ⟨below, by simp, status.imp_left ?_⟩
      rintro ⟨m', here, receipt⟩
      exact ⟨m', (Function.update_of_ne other _ _).trans here, receipt⟩
    · obtain ⟨below, gone⟩ := told.completed a f n member
      refine ⟨below, ?_⟩
      by_cases same : a = msg
      · rw [same]
        exact Function.update_self ..
      · exact (Function.update_of_ne same _ _).trans gone
  | @completed s _ _ j m found =>
    refine ⟨fun a m' here => .inr ?_, fun a f id b n member => ?_, fun a f n member => ?_⟩
    · obtain ⟨_, none⟩ | ⟨_, here⟩ := heap_update_iff.mp here
      · cases none
      · obtain ⟨f, id, b, earlier⟩ := (told.messages a m' here).resolve_left (by simp)
        exact ⟨f, id, b, List.mem_cons_of_mem _ earlier⟩
    · have earlier := (List.mem_cons.mp member).resolve_left nofun
      obtain ⟨below, _, status⟩ := told.returned a f id b n earlier
      refine ⟨below, by simp, ?_⟩
      by_cases same : a = (s.receipts.receipts j).msg
      · exact .inr ⟨m.friendNumber, m.receipt, by rw [same]; exact List.mem_cons_self⟩
      · rcases status with ⟨m', here, receipt⟩ | ⟨f', k, done⟩
        · exact .inl ⟨m', (Function.update_of_ne same _ _).trans here, receipt⟩
        · exact .inr ⟨f', k, List.mem_cons_of_mem _ done⟩
    · by_cases same : a = (s.receipts.receipts j).msg
      · rw [same]
        exact ⟨issued.below found, Function.update_self ..⟩
      · have earlier : .completed a f n ∈ s.events := by
          rcases List.mem_cons.mp member with now | earlier
          · cases now
            exact absurd rfl same
          · exact earlier
        obtain ⟨below, gone⟩ := told.completed a f n earlier
        exact ⟨below, (Function.update_of_ne same _ _).trans gone⟩

/-! ## The list -/

structure Listing (v : View) : Prop where
  /-- A message that is not under construction is in the list. -/
  listed : ∀ a m, v.s.heap a = some m → (∃ bytes, v.forming = some (a, bytes)) ∨
    a ∈ v.s.msgsOutbound
  numbered : ∀ a ∈ v.s.msgsOutbound, ∀ b ∈ v.s.msgsOutbound, ∀ m m', v.s.heap a = some m →
    v.s.heap b = some m' → m.receipt = m'.receipt → a = b

theorem Listing.initial : Listing ⟨initialState w, none, none⟩ where
  listed _ _ found := by cases found
  numbered _ member := by cases member

theorem avoidPending_free {params : Params} {pending : List Nat} {fuel last r : Nat}
    (found : avoidPending params pending fuel last = .ok r) : r ∉ pending := by
  induction fuel generalizing last with
  | zero => cases found
  | succ fuel ih =>
    rw [avoidPending] at found
    split at found
    · exact ih found
    · rename_i free
      cases found
      exact free

theorem mem_pending {r : Nat} : r ∈ s.pending ↔ ∃ a ∈ s.msgsOutbound, ∃ m, s.heap a = some m ∧ m.receipt = r := by
  simp [State.pending]

theorem Listing.quiet (listing : Listing v) (kept : Kept v.s v'.s) (forming : v'.forming = v.forming) :
    Listing v' := by
  refine ⟨fun a m' here => ?_, fun a member b member' m m' here here' same => ?_⟩
  · obtain ⟨m, found, _⟩ := kept.back here
    rw [forming, kept.list]
    exact listing.listed a m found
  · rw [kept.list] at member member'
    obtain ⟨m₁, found, _, receipt, _⟩ := kept.back here
    obtain ⟨m₂, found', _, receipt', _⟩ := kept.back here'
    exact listing.numbered a member b member' m₁ m₂ found found' (by rw [← receipt, ← receipt', same])

/-- Only completion can take a message out of the list. -/
theorem Listing.change (listing : Listing v) (linked : Linked v) (issued : Issued w v.s)
    (other : NoReceipt label) (change : Change w label v v') : Listing v' := by
  cases change with
  | quiet kept forming => exact listing.quiet kept forming
  | @begun s friendNumber message m _ split =>
    have old : ∀ a ∈ s.msgsOutbound, ∀ m', (begunState w s friendNumber m).heap a = some m' →
        s.heap a = some m' := by
      intro a member m' here
      obtain ⟨m₁, found⟩ := linked.held a member
      have below := issued.below found
      exact (Function.update_of_ne (Nat.ne_of_lt below) _ _).symm.trans here
    refine ⟨fun a m' here => ?_, fun a member b member' m m' here here' => ?_⟩
    · obtain ⟨mine, _⟩ | ⟨_, here⟩ := heap_update_iff.mp here
      · exact .inl ⟨message, by rw [mine]⟩
      · exact .inr ((listing.listed a m' here).resolve_left (by simp))
    · exact listing.numbered a member b member' m m' (old a member m here) (old b member' m' here')
  | @opened s msg receipt type message m db found free =>
    have absent := (linked.apart _ rfl).1
    -- the number is none of those in the list
    have fresh : ∀ a ∈ s.msgsOutbound, ∀ m', s.heap a = some m' → m'.receipt ≠ receipt :=
      fun a member m' here same => avoidPending_free free (mem_pending.mpr ⟨a, member, m', here, same⟩)
    have old : ∀ a ∈ s.msgsOutbound, ∀ m', (openedState s msg m type message receipt db).heap a =
        some m' → s.heap a = some m' := by
      intro a member m' here
      have different : a ≠ msg := fun same => absent (same ▸ member)
      exact (Function.update_of_ne different _ _).symm.trans here
    have own : ∀ m', (openedState s msg m type message receipt db).heap msg = some m' →
        m'.receipt = receipt := by
      intro m' here
      cases (Function.update_self (f := s.heap) ..).symm.trans here
      rfl
    refine ⟨fun a m' here => .inr ?_, fun a member b member' m₁ m₂ here here' same => ?_⟩
    · obtain ⟨mine, _⟩ | ⟨different, here⟩ := heap_update_iff.mp here
      · exact mem_link.mpr (.inl mine)
      · rcases listing.listed a m' here with ⟨_, same⟩ | earlier
        · cases same
          exact absurd rfl different
        · exact mem_link.mpr (.inr earlier)
    · rcases mem_link.mp member with rfl | earlier <;> rcases mem_link.mp member' with rfl | earlier'
      · rfl
      · exact absurd (same.symm.trans (own m₁ here)) (fresh b earlier' m₂ (old b earlier' m₂ here'))
      · exact absurd (same.trans (own m₂ here')) (fresh a earlier m₁ (old a earlier m₁ here))
      · exact listing.numbered a earlier b earlier' m₁ m₂ (old a earlier m₁ here)
          (old b earlier' m₂ here') same
  | @dropped s msg message m found =>
    have absent := (linked.apart _ rfl).1
    have old : ∀ a ∈ s.msgsOutbound, ∀ m', (msgOutboundDelete s msg).heap a = some m' →
        s.heap a = some m' := by
      intro a member m' here
      have different : a ≠ msg := fun same => absent (same ▸ member)
      exact (Function.update_of_ne different _ _).symm.trans here
    refine ⟨fun a m' here => .inr ?_, fun a member b member' m m' here here' => ?_⟩
    · obtain ⟨_, none⟩ | ⟨different, here⟩ := heap_update_iff.mp here
      · cases none
      · rcases listing.listed a m' here with ⟨_, same⟩ | earlier
        · cases same
          exact absurd rfl different
        · exact earlier
    · exact listing.numbered a member b member' m m' (old a member m here) (old b member' m' here')
  | completed => exact absurd rfl (other _ _)

/-- Completing another message than the first of two keeps the rest in the list. -/
theorem Listing.completed {taken : Option Nat} (listing : Listing ⟨s, taken, none⟩)
    (linked : Linked ⟨s, taken, none⟩) (rest : ¬ FirstOfTwo s.msgsOutbound msg) :
    Listing ⟨completedState s msg m, taken, none⟩ := by
  have kept : ∀ a, a ∈ msgsOutboundUnlink s.msgsOutbound msg ↔ a ∈ s.msgsOutbound ∧ a ≠ msg :=
    fun a => mem_unlink linked.nodup rest
  have old : ∀ {a m'}, (completedState s msg m).heap a = some m' → a ≠ msg ∧ s.heap a = some m' := by
    intro a m' here
    obtain ⟨_, none⟩ | both := heap_update_iff.mp here
    · cases none
    · exact both
  refine ⟨fun a m' here => .inr ?_, fun a member b member' m m' here here' => ?_⟩
  · obtain ⟨different, here⟩ := old here
    exact (kept a).mpr ⟨(listing.listed a m' here).resolve_left (by simp), different⟩
  · exact listing.numbered a ((kept a).mp member).1 b ((kept b).mp member').1 m m' (old here).2
      (old here').2

/-! ## Runs -/

/-- What holds at the end of every call, whatever the base library answers. -/
structure Tracked (w : World) (v : View) : Prop where
  issued : Issued w v.s
  linked : Linked v
  told : Told v
  listing : Listing v

theorem Tracked.initial : Tracked w ⟨initialState w, none, none⟩ where
  issued := .initial
  linked := Orderly.initial.linked
  told := .initial
  listing := .initial

theorem Tracked.move (tracked : Tracked w v) (move : Move w label v v') (listing : Listing v') :
    Tracked w v' where
  issued := tracked.issued.move move
  linked := tracked.linked.move tracked.issued move
  told := tracked.told.change tracked.issued (tracked.linked.formed tracked.issued) (change_of_move move)
  listing := listing

theorem Tracked.chain {admitted : Label → Prop} (tracked : Tracked w v)
    (other : ∀ label, admitted label → NoReceipt label) (chain : Chain w admitted v v') :
    Tracked w v' := by
  refine chain.invariant (I := Tracked w) ?_ tracked
  intro label v v' ok move before
  refine before.move move ?_
  exact before.listing.change before.linked before.issued (other _ ok) (change_of_move move)

theorem kept_confirmed {j : Nat} {db : Db} (found : s.heap (s.receipts.receipts j).msg = some m) :
    Kept s (confirmedState s j m db) :=
  .update [_] rfl rfl rfl rfl (by simp) (by simp) found sameShape_partConfirmed rfl rfl rfl

theorem Tracked.step {op : Op} (tracked : Tracked w ⟨s, none, none⟩) (keeps : KeepsOthers s op)
    (ran : Sender.step w op s = .ok s') : Tracked w ⟨s', none, none⟩ := by
  cases op with
  | send => exact tracked.chain (fun _ => id) (send_chain_noReceipt ran)
  | periodic => exact tracked.chain (fun _ => id) (periodic_chain_noReceipt ran)
  | receipt friendNumber messageId =>
    have cleared : ∀ {s₁ : State} {j : Nat}, Tracked w ⟨s₁, some j, none⟩ →
        Tracked w ⟨clearedState s₁ j, none, none⟩ := by
      intro s₁ j before
      have move : Move w (.receipt friendNumber messageId) ⟨s₁, some j, none⟩ _ := .cleared
      have kept : Kept s₁ (clearedState s₁ j) := .frame [] rfl rfl rfl rfl (by simp) (by simp) rfl
      exact before.move move (before.listing.quiet kept rfl)
    rcases receipt_cases ran with ⟨_, _, rfl⟩ | ⟨missing, outside, rfl⟩ | processed
    · exact tracked
    · have kept : Kept s { s with events := .passed friendNumber messageId :: s.events } :=
        .frame [_] rfl rfl rfl rfl (by simp) (by simp) rfl
      exact tracked.move (.passed missing outside) (tracked.listing.quiet kept rfl)
    · cases processed with
      | @completed j m m' db lookup held found stored same all result =>
        subst same result
        have confirm : Move w (.receipt friendNumber messageId) ⟨s, none, none⟩ _ :=
          .confirmed keeps.1 lookup held found stored
        have before := tracked.move confirm (tracked.listing.quiet (kept_confirmed found) rfl)
        have complete : Move w (.receipt friendNumber messageId)
            ⟨confirmedState s j m db, some j, none⟩ _ := .completed (Function.update_self ..) all
        have rest : ¬ FirstOfTwo s.msgsOutbound (s.receipts.receipts j).msg :=
          keeps.2 j lookup held m found all
        exact cleared (before.move complete (before.listing.completed before.linked rest))
      | @continued j m m' db s₁ lookup held found stored same more serves result =>
        subst same result
        have confirm : Move w (.receipt friendNumber messageId) ⟨s, none, none⟩ _ :=
          .confirmed keeps.1 lookup held found stored
        have before := tracked.move confirm (tracked.listing.quiet (kept_confirmed found) rfl)
        exact cleared (before.chain (fun _ serving => serving.others.2.2) serves.chain_serving)

/-- What the events say holds in every run. -/
theorem told_of_run {ops : List Op} (run : Run (Sender.step w) (fun _ op => Proper op) (Started w) ops s) :
    Told ⟨s, none, none⟩ := by
  have kept : Issued w s ∧ Linked ⟨s, none, none⟩ ∧ Told ⟨s, none, none⟩ := by
    refine run.invariant (I := fun s => Issued w s ∧ Linked ⟨s, none, none⟩ ∧ Told ⟨s, none, none⟩) ?_ ?_
    · intro s started
      rw [started_iff.mp started]
      exact ⟨.initial, Orderly.initial.linked, .initial⟩
    · intro s op s' before proper ran
      refine (step_chain proper ran).invariant (I := fun v => Issued w v.s ∧ Linked v ∧ Told v) ?_ before
      rintro label v v' _ move ⟨issued, linked, told⟩
      exact ⟨issued.move move, linked.move issued move,
        told.change issued (linked.formed issued) (change_of_move move)⟩
  exact kept.2.2

theorem Tracked.pending (tracked : Tracked w ⟨s, none, none⟩) {r : Nat} :
    Pending s msg r ↔ msg ∈ s.msgsOutbound ∧ ∃ m, s.heap msg = some m ∧ m.receipt = r := by
  constructor
  · rintro ⟨⟨f, id, bytes, given⟩, open_⟩
    obtain ⟨_, _, status⟩ := tracked.told.returned msg f id bytes r given
    obtain ⟨m, found, receipt⟩ := status.resolve_right (fun ⟨f', k, done⟩ => open_ f' k done)
    exact ⟨(tracked.listing.listed msg m found).resolve_left (by simp), m, found, receipt⟩
  · rintro ⟨_, m, found, rfl⟩
    refine ⟨(tracked.told.messages msg m found).resolve_left (by simp), fun f n done => ?_⟩
    have gone := (tracked.told.completed msg f n done).2
    exact absurd (found.symm.trans gone) (by simp)

theorem tracked_of_run {ops : List Op} (run : Run (Sender.step w) KeepsOthers (Started w) ops s) :
    Tracked w ⟨s, none, none⟩ := by
  refine run.invariant (I := fun s => Tracked w ⟨s, none, none⟩) ?_ ?_
  · intro s started
    rw [started_iff.mp started]
    exact .initial
  · intro s op s' before keeps ran
    exact before.step keeps ran

/-- In every run in which no receipt completes the first of exactly two
messages, the query is exact and no two pending messages share a number. -/
theorem pending_exact_of_kept {ops : List Op} (run : Run (step w) KeepsOthers (Started w) ops s) :
    Exact s := by
  have tracked := tracked_of_run run
  constructor
  · intro r _
    have queried : isReceiptPending s r = 1 ↔
        ∃ a ∈ s.msgsOutbound, ∃ m, s.heap a = some m ∧ m.receipt = r := by
      simp [isReceiptPending, Option.any_eq_true]
    rw [queried]
    simp only [tracked.pending]
  · intro r a b _ first second
    obtain ⟨member, m, found, receipt⟩ := tracked.pending.mp first
    obtain ⟨member', m', found', receipt'⟩ := tracked.pending.mp second
    exact tracked.listing.numbered a member b member' m m' found found' (receipt.trans receipt'.symm)

/-- Two messages of two parts each, under the ids 5 to 8. -/
def twoMessages : World := scripted { maxMessageLength := 64 } [5, 6, 7, 8] []

/-- The second is completed, and the first is still pending. -/
theorem pending_exact_of_second : ∃ s,
    Run (step twoMessages) KeepsOthers (Started twoMessages)
      [.receipt 1 7, .receipt 1 8, .send 1 0 (List.replicate 65 2) fun _ => 0,
        .send 1 0 (List.replicate 65 1) fun _ => 0] s ∧
    isReceiptPending s 0x70000001 = 1 ∧ isReceiptPending s 0x70000002 = 0 ∧ Exact s := by
  obtain ⟨s, run, checked⟩ := exists_run (step twoMessages) (fun s op => KeepsOthers s op)
    [.send 1 0 (List.replicate 65 1) fun _ => 0, .send 1 0 (List.replicate 65 2) fun _ => 0,
      .receipt 1 8, .receipt 1 7]
    (fun s => isReceiptPending s 0x70000001 = 1 ∧ isReceiptPending s 0x70000002 = 0)
    (started_initialState twoMessages) (by decide +kernel)
  obtain ⟨first, second⟩ := of_decide_eq_true checked
  exact ⟨s, run, first, second, pending_exact_of_kept run⟩

/-- The first is completed, and the second is pending but not known to be. -/
theorem second_not_pending : ∃ s,
    Run (step twoMessages) (fun _ op => Proper op) (Started twoMessages)
      [.receipt 1 6, .receipt 1 5, .send 1 0 (List.replicate 65 2) fun _ => 0,
        .send 1 0 (List.replicate 65 1) fun _ => 0] s ∧ ¬ Exact s := by
  obtain ⟨s, run, checked⟩ := exists_run (step twoMessages) (fun _ op => Proper op)
    [.send 1 0 (List.replicate 65 1) fun _ => 0, .send 1 0 (List.replicate 65 2) fun _ => 0,
      .receipt 1 5, .receipt 1 6]
    (fun s => isReceiptPending s 0x70000002 = 0 ∧
      .returned 1 1 1234567890124 (List.replicate 65 2) 0x70000002 ∈ s.events ∧ (s.heap 1).isSome)
    (started_initialState twoMessages) (by decide +kernel)
  obtain ⟨unknown, given, held⟩ := of_decide_eq_true checked
  refine ⟨s, run, fun exact_ => ?_⟩
  have pending : Pending s 1 0x70000002 := by
    refine ⟨⟨_, _, _, given⟩, fun f n done => ?_⟩
    have gone := (told_of_run run).completed 1 f n done
    rw [gone.2] at held
    cases held
  have known := (exact_.answer 0x70000002 (by decide)).mpr ⟨1, pending⟩
  rw [unknown] at known
  cases known

end Defragmenter.PendingQuery
