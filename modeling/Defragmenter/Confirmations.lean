import Defragmenter.Completion
import Defragmenter.FragmentType

/-! What stands behind a message that is reported complete. The events name the
long messages a client was given a number for, the parts that receipts have
confirmed, and the messages that were completed. While the cursors lead where
they are used, a completed message has a confirmation for each of its parts,
and each was sent in a call of the base library that carried the bytes
`splitMessage` put there. -/
namespace Defragmenter.Confirmations
open Decimal Marker Database OutboundStore Split Receipts Sender Moves Provenance Tracking Accounting Messages
open Bookkeeping Anchoring FragmentBytes ClientView Completion Runs

/-- A long message that was taken, as the client was told. -/
structure Posting where
  msg : Nat
  friendNumber : Nat
  id : Nat
  message : List UInt8
  receipt : Nat
  deriving DecidableEq

def Posting.event (p : Posting) : Event := .returned p.msg p.friendNumber p.id p.message p.receipt

/-- The fragments it is sent in. -/
def Posting.split (w : World) (p : Posting) : Except Fault MsgOutbound :=
  splitMessage (markerMaxSizeBytes (2 ^ 31 - 1) (2 ^ 31 - 1)) p.message w.params.maxMessageLength p.id

/-- A long message can be sent so that its fragments are read back and its
number is new: there is room behind the marker, the id has the thirteen digits
of a time in milliseconds, and the numbers have not come to the end of their
range. -/
def Sendable (w : World) (s : State) : Op → Prop
  | .send _ _ message _ => w.params.maxMessageLength < message.length →
      63 < w.params.maxMessageLength ∧ 10 ^ 12 ≤ (generateMsgId w s).1 ∧
        (generateMsgId w s).1 < 10 ^ 13 ∧ s.lastReceipt < w.params.receiptRangeHi
  | _ => True

instance {w : World} {s : State} : DecidablePred (Sendable w s) := fun op =>
  match op with
  | .send .. => inferInstanceAs (Decidable (_ → _ ∧ _ ∧ _ ∧ _))
  | .receipt .. => .isTrue trivial
  | .periodic => .isTrue trivial

variable {w : World} {originals : Nat → Option MsgOutbound} {v v' : View} {label : Label} {s s' : State}
  {taken taken' : Option Nat} {forming forming' : Option (Nat × List UInt8)} {msg i a k : Nat} {m m' : MsgOutbound}

/-! ## Leading cursors come to no confirmed part -/

theorem clear_of_leads {calls : Nat} (cursor : CursorLeads v a) (found : v.s.heap a = some m) :
    Clear w calls m := by
  intro i member
  obtain ⟨behind, inside⟩ := le_of_comesTo member
  exact (cursor m found).1 i (by omega) (by omega)

theorem clearAll_of_leads (increasing : Increasing w) {msgs : List Nat} : ∀ {s : State},
    Orderly w ⟨s, none, none⟩ → msgs.Nodup →
    (∀ p ∈ msgs.zipIdx s.polls, w.online p.2 = true → CursorLeads ⟨s, none, none⟩ p.1) →
    ClearAll w msgs s := by
  induction msgs with
  | nil => exact fun _ _ _ => trivial
  | cons msg rest ih =>
    intro s orderly nodup cursors
    refine ⟨fun online m found => ?_, fun s' served => ?_⟩
    · have member : (msg, s.polls) ∈ (msg :: rest).zipIdx s.polls := by
        rw [List.zipIdx_cons]
        exact List.mem_cons_self
      exact clear_of_leads (cursors _ member online) found
    · have serves : Serves w none msg s s' := serve_serves none (mem_toOption.mp served)
      apply ih (orderly.chain increasing serves.chain) (List.nodup_cons.mp nodup).2
      exact cursors_serves increasing orderly nodup serves cursors

/-- While the accounts are right, only records of unconfirmed parts can expire. -/
theorem expiresUnconfirmed_of_settled (settled : Settled w s) (now : Nat) :
    ExpiresUnconfirmed w now s := by
  intro k _ late
  have live : Live ⟨s, none, none⟩ k := ⟨held_of_expired late, nofun⟩
  obtain ⟨m, found⟩ := settled.anchored k live
  exact ⟨m, found, (settled.owned.owns k m live found).2⟩

theorem guarded_of_leading {op : Op} (increasing : Increasing w) (settled : Settled w s)
    (leading : Leading w s op) : Guarded w s op := by
  cases op with
  | send => trivial
  | receipt friendNumber messageId =>
    obtain ⟨proper, leading⟩ := leading
    refine ⟨proper, fun j lookup held => ?_⟩
    have heldJ : s.receipts.key j ≠ 0 := held ▸ proper
    obtain ⟨m, found⟩ := settled.anchored j ⟨heldJ, nofun⟩
    refine ⟨m, found, fun more online => ?_⟩
    have incomplete := settled.owned.unfinished settled.orderly heldJ found more
    have cursor := leading j lookup held online ⟨m, found, incomplete⟩
    have after := @CursorLeads.confirmed _ _ _ _ s.db settled.orderly heldJ found cursor
    exact clear_of_leads after (Function.update_self ..)
  | periodic =>
    refine ⟨fun _ => expiresUnconfirmed_of_settled settled _, fun s₁ resent => ?_⟩
    have expires := resendExpiredReceipts_expires (mem_toOption.mp resent)
    obtain ⟨list, polls, _⟩ := expires.frame
    obtain ⟨first, cursors⟩ := tidy_expires increasing settled.orderly settled.owned expires
    apply clearAll_of_leads increasing first.orderly first.orderly.linked.nodup
    intro p member online
    rw [list, polls] at member
    exact cursors p.1 (leading p member online)

/-! ## To whom the calls go -/

/-- Messages, and the calls for fragments that were taken, are for an allowed friend. -/
structure Addressed (w : World) (allowed : Nat → Nat → Prop) (s : State) : Prop where
  heap : ∀ a m, s.heap a = some m → allowed a m.friendNumber
  base : ∀ i call, s.base[i]? = some call → w.answer i ≠ 0 → ∀ a partNo, call.part = some (a, partNo) →
    allowed a call.friendNumber

theorem Addressed.mono {allowed allowed' : Nat → Nat → Prop} (addressed : Addressed w allowed s)
    (implies : ∀ a f, allowed a f → allowed' a f) : Addressed w allowed' s where
  heap a m here := implies _ _ (addressed.heap a m here)
  base i call at_i taken a partNo mine := implies _ _ (addressed.base i call at_i taken a partNo mine)

theorem Addressed.move {allowed : Nat → Nat → Prop} (addressed : Addressed w allowed v.s)
    (move : Move w label v v') (later : label ≠ .form) : Addressed w allowed v'.s where
  heap a m here := by
    cases change_of_move move with
    | quiet kept =>
      obtain ⟨m₀, found, shape, _⟩ := kept.back here
      exact shape.friendNumber ▸ addressed.heap a m₀ found
    | begun | opened | dropped => exact absurd rfl later
    | completed found =>
      obtain ⟨_, none⟩ | ⟨_, here⟩ := heap_update_iff.mp here
      · cases none
      · exact addressed.heap a m here
  base i call at_i taken a partNo mine := by
    rcases FragmentType.move_base move with same | ⟨new, grown, carries⟩
    · exact addressed.base i call (same ▸ at_i) taken a partNo mine
    · rw [grown] at at_i
      rcases getElem?_snoc at_i with before | ⟨_, rfl⟩
      · exact addressed.base i call before taken a partNo mine
      · obtain ⟨m, found, _, friend⟩ := carries a partNo mine
        exact friend ▸ addressed.heap a m found

theorem Addressed.chain {admitted : Label → Prop} {allowed : Nat → Nat → Prop}
    (addressed : Addressed w allowed v.s) (chain : Chain w admitted v v')
    (later : ∀ label, admitted label → label ≠ .form) : Addressed w allowed v'.s :=
  chain.invariant (I := fun v => Addressed w allowed v.s)
    (fun ok move before => before.move move (later _ ok)) addressed

/-! ## The numbers of the messages -/

/-- What the process has not given out yet lies beyond all that it has. -/
structure Known (w : World) (originals : Nat → Option MsgOutbound) (s : State) (p : Posting) : Prop where
  below : p.msg < s.fresh
  id_le : p.id ≤ s.lastMsgId
  receipt_le : p.receipt ≤ s.lastReceipt
  room : 63 < w.params.maxMessageLength
  lower : 10 ^ 12 ≤ p.id
  upper : p.id < 10 ^ 13
  long : w.params.maxMessageLength < p.message.length
  fits : p.message.length ≤ w.limit.val
  split : ∃ built, p.split w = .ok built ∧ originals p.msg = some built

/-- The messages that were taken, each under an address, an id and a number of its own. -/
structure Posted (w : World) (originals : Nat → Option MsgOutbound) (s : State) : Prop where
  reserved : s.markerMaxSizeEver = markerMaxSizeBytes (2 ^ 31 - 1) (2 ^ 31 - 1)
  known : ∀ p : Posting, p.event ∈ s.events → Known w originals s p
  distinct : ∀ p q : Posting, p.event ∈ s.events → q.event ∈ s.events →
    p.msg = q.msg ∨ p.id = q.id ∨ p.receipt = q.receipt → p = q
  addressed : Addressed w (fun a f => ∃ p : Posting, p.event ∈ s.events ∧ p.msg = a ∧ p.friendNumber = f) s

/-- The same messages, the same next numbers. -/
structure SamePostings (s s' : State) : Prop where
  reserved : s'.markerMaxSizeEver = s.markerMaxSizeEver
  fresh : s'.fresh = s.fresh
  lastMsgId : s'.lastMsgId = s.lastMsgId
  lastReceipt : s'.lastReceipt = s.lastReceipt
  events : ∀ p : Posting, p.event ∈ s'.events ↔ p.event ∈ s.events

theorem SamePostings.trans {s'' : State} (first : SamePostings s s') (second : SamePostings s' s'') :
    SamePostings s s'' where
  reserved := second.reserved.trans first.reserved
  fresh := second.fresh.trans first.fresh
  lastMsgId := second.lastMsgId.trans first.lastMsgId
  lastReceipt := second.lastReceipt.trans first.lastReceipt
  events p := (second.events p).trans (first.events p)

/-- Only what a long send begins and ends with makes a message and numbers it. -/
theorem samePostings_of_move (move : Move w label v v') (later : label ≠ .form) :
    SamePostings v.s v'.s := by
  cases move with
  | begun | opened | dropped => exact absurd rfl later
  | passed | confirmed | completed =>
    refine ⟨rfl, rfl, rfl, rfl, fun p => ⟨fun member => ?_, List.mem_cons_of_mem _⟩⟩
    exact (List.mem_cons.mp member).resolve_left nofun
  | _ => exact ⟨rfl, rfl, rfl, rfl, fun _ => Iff.rfl⟩

theorem samePostings_of_chain {admitted : Label → Prop} (chain : Chain w admitted v v')
    (later : ∀ label, admitted label → label ≠ .form) : SamePostings v.s v'.s :=
  chain.invariant (I := fun v' => SamePostings v.s v'.s)
    (fun ok move before => before.trans (samePostings_of_move move (later _ ok)))
    ⟨rfl, rfl, rfl, rfl, fun _ => Iff.rfl⟩

theorem Known.frame {p : Posting} (known : Known w originals s p) (fresh : s.fresh ≤ s'.fresh)
    (lastMsgId : s.lastMsgId ≤ s'.lastMsgId) (lastReceipt : s.lastReceipt ≤ s'.lastReceipt)
    {originals' : Nat → Option MsgOutbound} (same : originals' p.msg = originals p.msg) :
    Known w originals' s' p where
  below := known.below.trans_le fresh
  id_le := known.id_le.trans lastMsgId
  receipt_le := known.receipt_le.trans lastReceipt
  room := known.room
  lower := known.lower
  upper := known.upper
  long := known.long
  fits := known.fits
  split := same ▸ known.split

/-- No message is taken, and what comes next stays beyond. -/
theorem Posted.keep {originals' : Nat → Option MsgOutbound} (posted : Posted w originals s)
    (reserved : s'.markerMaxSizeEver = s.markerMaxSizeEver) (fresh : s.fresh ≤ s'.fresh)
    (lastMsgId : s.lastMsgId ≤ s'.lastMsgId) (lastReceipt : s.lastReceipt ≤ s'.lastReceipt)
    (events : ∀ p : Posting, p.event ∈ s'.events ↔ p.event ∈ s.events)
    (agree : ∀ a < s.fresh, originals' a = originals a)
    (addressed : Addressed w (fun a f => ∃ p : Posting, p.event ∈ s.events ∧ p.msg = a ∧ p.friendNumber = f) s') :
    Posted w originals' s' where
  reserved := reserved.trans posted.reserved
  known p member := by
    have known := posted.known p ((events p).mp member)
    exact known.frame fresh lastMsgId lastReceipt (agree _ known.below)
  distinct p q member member' := posted.distinct p q ((events p).mp member) ((events q).mp member')
  addressed := by
    refine addressed.mono ?_
    rintro a f ⟨p, member, rest⟩
    exact ⟨p, (events p).mpr member, rest⟩

theorem Posted.same {originals' : Nat → Option MsgOutbound} (posted : Posted w originals s)
    (same : SamePostings s s') (agree : ∀ a < s.fresh, originals' a = originals a)
    (addressed : Addressed w (fun a f => ∃ p : Posting, p.event ∈ s.events ∧ p.msg = a ∧ p.friendNumber = f) s') :
    Posted w originals' s' :=
  posted.keep same.reserved (Nat.le_of_eq same.fresh.symm) (Nat.le_of_eq same.lastMsgId.symm)
    (Nat.le_of_eq same.lastReceipt.symm) same.events agree addressed

/-! ## A long send -/

section Window
variable {friendNumber : Nat} {bytes : List UInt8}
  (chain : Chain w (· = .first) ⟨begunState w s friendNumber m, none, some (s.fresh, bytes)⟩
    ⟨s', none, some (s.fresh, bytes)⟩)
include chain

/-- A window that leaves no part on its way had every call refused. -/
theorem refused_of_idle (small : w.params.fragmentsAtATime < 2 ^ 32) (issued : Issued w s)
    (found : s'.heap s.fresh = some m') (idle : m'.numTransit = 0) {i partNo : Nat} {call : BaseCall}
    (at_i : s'.base[i]? = some call) (mine : call.part = some (s.fresh, partNo)) : w.answer i = 0 := by
  have kept := chain.invariant (I := fun v => v.forming = some (s.fresh, bytes) ∧
    ∀ m, v.s.heap s.fresh = some m → m.numTransit = 0 → ∀ i call partNo, v.s.base[i]? = some call →
      call.part = some (s.fresh, partNo) → w.answer i = 0) ?_ ⟨rfl, ?_⟩
  · exact kept.2 m' found idle i call partNo at_i mine
  · rintro _ v v' rfl move ⟨forms, before⟩
    cases move with
    | firstRefused found inside room blank refused =>
      refine ⟨forms, fun m here idle i call partNo at_i mine => ?_⟩
      rcases getElem?_snoc at_i with earlier | ⟨rfl, _⟩
      · exact before m here idle i call partNo earlier mine
      · exact refused
    | firstSent found inside room =>
      refine ⟨forms, fun m here idle => ?_⟩
      cases forms
      cases sentState_heap.symm.trans here
      change (_ + 1) % 2 ^ 32 = 0 at idle
      omega
  · intro m _ _ i call partNo at_i mine
    exact absurd (issued.called at_i mine).1 (Nat.lt_irrefl _)

/-- The window is for the message's friend. -/
theorem addressed_window {allowed : Nat → Nat → Prop} (addressed : Addressed w allowed s)
    (own : allowed s.fresh friendNumber) : Addressed w allowed s' := by
  have begun : Addressed w allowed (begunState w s friendNumber m) := by
    refine ⟨fun a m' here => ?_, addressed.base⟩
    obtain ⟨rfl, same⟩ | ⟨_, here⟩ := heap_update_iff.mp here
    · cases same
      exact own
    · exact addressed.heap a m' here
  apply begun.chain chain
  rintro _ rfl
  nofun

theorem samePostings_window : SamePostings (begunState w s friendNumber m) s' :=
  samePostings_of_chain chain (by rintro _ rfl; nofun)

end Window

/-- The number after the last one is free, unless the range ends there. -/
theorem avoidPending_next {params : Params} {pending : List Nat} {fuel last receipt : Nat}
    (range : ProperRange params) (within : last < params.receiptRangeHi)
    (pending_le : ∀ n ∈ pending, n ≤ last)
    (free : avoidPending params pending (fuel + 1) (nextReceiptNo params last) = .ok receipt) :
    receipt = last + 1 := by
  have next : nextReceiptNo params last = last + 1 := by
    unfold ProperRange at range
    unfold nextReceiptNo
    rw [if_pos (by omega)]
    omega
  have unused : last + 1 ∉ pending := fun member => absurd (pending_le _ member) (by omega)
  rw [next, avoidPending, if_neg unused] at free
  exact (Except.ok.inj free).symm

/-- The messages in the list have numbers that were given out. -/
theorem pending_le (posted : Posted w originals s) (reported : Reported w ⟨s', none, some (s.fresh, bytes)⟩)
    (events : ∀ p : Posting, p.event ∈ s'.events → p.event ∈ s.events) :
    ∀ n ∈ s'.pending, n ≤ s.lastReceipt := by
  intro n member
  obtain ⟨a, linked, here⟩ := List.mem_filterMap.mp member
  obtain ⟨m, found, rfl⟩ := Option.map_eq_some_iff.mp here
  rcases reported.logged.messages a m found with ⟨_, forms⟩ | ⟨message, given⟩
  · cases forms
    exact absurd linked (reported.orderly.linked.apart _ rfl).1
  · exact (posted.known ⟨a, m.friendNumber, m.id, message, m.receipt⟩ (events _ given)).receipt_le

theorem event_inj {p q : Posting} (same : p.event = q.event) : p = q := by
  obtain ⟨_, _, _, _, _⟩ := p
  cases same
  rfl

/-- One more message is taken, beyond all that were. -/
theorem Posted.add {originals' : Nat → Option MsgOutbound} {p : Posting} (posted : Posted w originals s)
    (reserved : s'.markerMaxSizeEver = s.markerMaxSizeEver) (known : Known w originals' s' p)
    (address : p.msg = s.fresh) (id : s.lastMsgId < p.id) (number : s.lastReceipt < p.receipt)
    (agree : ∀ a < s.fresh, originals' a = originals a)
    (events : ∀ q : Posting, q.event ∈ s'.events ↔ q = p ∨ q.event ∈ s.events)
    (addressed : Addressed w (fun a f => ∃ q : Posting, q.event ∈ s'.events ∧ q.msg = a ∧ q.friendNumber = f) s') :
    Posted w originals' s' where
  reserved := reserved.trans posted.reserved
  known q member := by
    rcases (events q).mp member with rfl | earlier
    · exact known
    · have old := posted.known q earlier
      have beyond := known.below
      have below := old.below
      have id_le := known.id_le
      have receipt_le := known.receipt_le
      apply old.frame
      · omega
      · omega
      · omega
      · exact agree _ below
  distinct q r member member' alike := by
    rcases (events q).mp member with rfl | earlier <;> rcases (events r).mp member' with rfl | earlier'
    · rfl
    · have old := posted.known r earlier'
      have := old.below
      have := old.id_le
      have := old.receipt_le
      omega
    · have old := posted.known q earlier
      have := old.below
      have := old.id_le
      have := old.receipt_le
      omega
    · exact posted.distinct q r earlier earlier' alike
  addressed := addressed

/-- What a call adds to the messages that were taken. -/
structure Added (s s' : State) : Prop where
  new : ∀ p : Posting, p.event ∈ s'.events → p.event ∈ s.events ∨ p.msg = s.fresh ∧ s.lastMsgId < p.id
  old : ∀ p : Posting, p.event ∈ s.events → p.event ∈ s'.events

theorem SamePostings.added (same : SamePostings s s') : Added s s' where
  new p member := .inl ((same.events p).mp member)
  old p := (same.events p).mpr

theorem Posted.long {friendNumber : Nat} {type : Int} {bytes : List UInt8} (increasing : Increasing w)
    (range : ProperRange w.params) (small : w.params.fragmentsAtATime < 2 ^ 32)
    (posted : Posted w originals s) (reported : Reported w ⟨s, none, none⟩)
    (room : 63 < w.params.maxMessageLength) (lower : 10 ^ 12 ≤ (generateMsgId w s).1)
    (upper : (generateMsgId w s).1 < 10 ^ 13) (within : s.lastReceipt < w.params.receiptRangeHi)
    (long : w.params.maxMessageLength < bytes.length) (sends : LongSend w friendNumber type bytes s s') :
    Posted w (Function.update originals s.fresh (original w s bytes)) s' ∧ Added s s' := by
  have agree : ∀ a < s.fresh, Function.update originals s.fresh (original w s bytes) a = originals a :=
    fun a below => Function.update_of_ne (Nat.ne_of_lt below) _ _
  have issued : Issued w s := reported.orderly.issued
  have started : Addressed w (fun a f => (∃ p : Posting, p.event ∈ s.events ∧ p.msg = a ∧ p.friendNumber = f) ∨
      a = s.fresh ∧ f = friendNumber) s := posted.addressed.mono fun _ _ => .inl
  cases sends with
  | @opened s₁ m m₁ receipt db split _ window found taken _ free stored same =>
    obtain ⟨fresh, _, m₁', found', friend, id⟩ := FragmentType.window_kept window
    cases found.symm.trans found'
    have postings := samePostings_window window
    have addressed := addressed_window window started (.inr ⟨rfl, rfl⟩)
    have begun : Move w .form ⟨s, none, none⟩
      ⟨begunState w s friendNumber m, none, some (s.fresh, bytes)⟩ := .begun long split
    have after : Reported w ⟨s₁, none, some (s.fresh, bytes)⟩ := window.invariant
      (fun _ move before => before.move increasing range move) (reported.move increasing range begun)
    have pending := pending_le posted after fun p => (postings.events p).mp
    have last : s₁.lastReceipt = s.lastReceipt := postings.lastReceipt
    rw [last] at free
    have number := avoidPending_next range within pending free
    have sameId : m₁.id = (generateMsgId w s).1 := id.trans (unsent_of_split split).id_eq
    have newer : s.lastMsgId < (generateMsgId w s).1 := Nat.le_max_right _ _
    have lastId : s₁.lastMsgId = (generateMsgId w s).1 := postings.lastMsgId
    have own := FragmentType.original_of_split split
    subst same
    -- the message that is taken now
    let p : Posting := ⟨s.fresh, m₁.friendNumber, m₁.id, bytes, receipt⟩
    have events : ∀ q : Posting, q.event ∈ (openedState s₁ s.fresh m₁ type bytes receipt db).events ↔
        q = p ∨ q.event ∈ s.events := by
      intro q
      refine List.mem_cons.trans (or_congr ⟨fun same => ?_, fun same => ?_⟩ (postings.events q))
      · exact event_inj same
      · rw [same]
        rfl
    have below : s.lastMsgId < p.id := newer.trans_eq sameId.symm
    refine ⟨posted.add (p := p) postings.reserved ?_ rfl below ?_ agree events ?_, ?_⟩
    · refine ⟨?_, ?_, Nat.le_refl _, room, lower.trans_eq sameId.symm, sameId.trans_lt upper, long,
        length_le_of_inserted stored, m, ?_, (Function.update_self ..).trans own⟩
      · exact fresh ▸ Nat.lt_succ_self _
      · exact Nat.le_of_eq (sameId.trans lastId.symm)
      · rw [posted.reserved] at split
        change splitMessage _ bytes _ m₁.id = _
        rw [sameId]
        exact split
    · exact (Nat.lt_succ_self _).trans_eq number.symm
    · have allowed : ∀ a f, (∃ p : Posting, p.event ∈ s.events ∧ p.msg = a ∧ p.friendNumber = f) ∨
          a = s.fresh ∧ f = friendNumber →
          ∃ q : Posting, q.event ∈ (openedState s₁ s.fresh m₁ type bytes receipt db).events ∧ q.msg = a ∧
            q.friendNumber = f := by
        rintro a f (⟨q, member, both⟩ | ⟨rfl, rfl⟩)
        · exact ⟨q, (events q).mpr (.inr member), both⟩
        · exact ⟨p, (events p).mpr (.inl rfl), rfl, friend⟩
      refine ⟨fun a m' here => ?_, (addressed.mono allowed).base⟩
      obtain ⟨rfl, same⟩ | ⟨_, here⟩ := heap_update_iff.mp here
      · cases same
        exact (addressed.mono allowed).heap _ m₁ found
      · exact (addressed.mono allowed).heap a m' here
    · refine ⟨fun q member => ?_, fun q member => (events q).mpr (.inr member)⟩
      rcases (events q).mp member with rfl | earlier
      · exact .inr ⟨rfl, below⟩
      · exact .inl earlier
  | @dropped s₁ m m₁ split _ window found idle same =>
    have postings := samePostings_window window
    have addressed := addressed_window window started (.inr ⟨rfl, rfl⟩)
    subst same
    have older : ∀ a f, a ≠ s.fresh → (∃ p : Posting, p.event ∈ s.events ∧ p.msg = a ∧ p.friendNumber = f) ∨
        a = s.fresh ∧ f = friendNumber → ∃ p : Posting, p.event ∈ s.events ∧ p.msg = a ∧ p.friendNumber = f :=
      fun a f other allowed => allowed.resolve_right fun own => other own.1
    have newer : s.lastMsgId ≤ (begunState w s friendNumber m).lastMsgId :=
      (Nat.le_succ _).trans (Nat.le_max_right _ _)
    refine ⟨posted.keep postings.reserved ?_ (newer.trans_eq postings.lastMsgId.symm)
      (Nat.le_of_eq postings.lastReceipt.symm) postings.events agree ⟨fun a m' here => ?_,
        fun i call at_i taken a partNo mine => ?_⟩, fun p => .inl ∘ (postings.events p).mp,
        fun p => (postings.events p).mpr⟩
    · exact (Nat.le_succ _).trans_eq postings.fresh.symm
    · obtain ⟨_, none⟩ | ⟨other, here⟩ := heap_update_iff.mp here
      · cases none
      · exact older _ _ other (addressed.heap a m' here)
    · refine older _ _ ?_ (addressed.base i call at_i taken a partNo mine)
      rintro rfl
      exact taken (refused_of_idle window small issued found idle at_i mine)

theorem Posted.send {friendNumber : Nat} {type : Int} {bytes : List UInt8} {beyond : Memory}
    (increasing : Increasing w) (range : ProperRange w.params) (small : w.params.fragmentsAtATime < 2 ^ 32)
    (posted : Posted w originals s) (reported : Reported w ⟨s, none, none⟩)
    (sendable : Sendable w s (.send friendNumber type bytes beyond))
    (ran : step w (.send friendNumber type bytes beyond) s = .ok s') :
    Posted w (Function.update originals s.fresh (original w s bytes)) s' ∧ Added s s' := by
  have agree : ∀ a < s.fresh, Function.update originals s.fresh (original w s bytes) a = originals a :=
    fun a below => Function.update_of_ne (Nat.ne_of_lt below) _ _
  rcases send_cases ran with rfl | ⟨call, none, rfl⟩ | ⟨long, sends⟩
  · have same : SamePostings s' s' := ⟨rfl, rfl, rfl, rfl, fun _ => Iff.rfl⟩
    exact ⟨posted.same same agree posted.addressed, same.added⟩
  · have same : SamePostings s { s with base := s.base ++ [call] } := ⟨rfl, rfl, rfl, rfl, fun _ => Iff.rfl⟩
    refine ⟨posted.same same agree ⟨posted.addressed.heap, fun i other at_i taken a partNo mine => ?_⟩,
      same.added⟩
    rcases getElem?_snoc at_i with earlier | ⟨_, rfl⟩
    · exact posted.addressed.base i other earlier taken a partNo mine
    · cases none.symm.trans mine
  · obtain ⟨room, lower, upper, within⟩ := sendable long
    exact posted.long increasing range small reported room lower upper within long sends

/-- Receipts and periodic passes take no message. -/
theorem Posted.later {op : Op} (posted : Posted w originals s) (proper : Proper op)
    (later : ∀ f t bytes m, op ≠ .send f t bytes m) (ran : step w op s = .ok s') :
    Posted w originals s' ∧ SamePostings s s' := by
  have chain := later_chain proper later ran
  have same : SamePostings s s' := samePostings_of_chain chain fun _ => id
  exact ⟨posted.same same (fun _ _ => rfl) (posted.addressed.chain chain fun _ => id), same⟩

/-! ## Confirmed parts -/

/-- A part with its flag set was confirmed by a receipt. -/
def Flagged (v : View) : Prop :=
  ∀ a m k, v.s.heap a = some m → (part m k).confirmed = true → ∃ r, .confirmed a (k + 1) r ∈ v.s.events

theorem Flagged.keep (flagged : Flagged v) (events : v.s.events ⊆ v'.s.events)
    (back : ∀ a m' k, v'.s.heap a = some m' → (part m' k).confirmed = true →
      ∃ m, v.s.heap a = some m ∧ (part m k).confirmed = true) : Flagged v' := by
  intro a m' k here confirmed
  obtain ⟨m, found, before⟩ := back a m' k here confirmed
  obtain ⟨r, member⟩ := flagged a m k found before
  exact ⟨r, events member⟩

theorem Flagged.frame (flagged : Flagged ⟨s, taken, forming⟩) (heap : s'.heap = s.heap)
    (events : s.events ⊆ s'.events) : Flagged ⟨s', taken', forming'⟩ :=
  flagged.keep events fun _ m' _ here confirmed => ⟨m', heap ▸ here, confirmed⟩

/-- A message changes in place, its flags staying as they are. -/
theorem Flagged.update (flagged : Flagged ⟨s, taken, forming⟩) (found : s.heap msg = some m)
    (flags : ∀ k, (part m' k).confirmed = (part m k).confirmed)
    (heap : s'.heap = Function.update s.heap msg (some m')) (events : s.events ⊆ s'.events) :
    Flagged ⟨s', taken', forming'⟩ := by
  apply flagged.keep events
  intro a m₁ k here confirmed
  change s'.heap a = some m₁ at here
  rw [heap] at here
  obtain ⟨rfl, same⟩ | ⟨_, here⟩ := heap_update_iff.mp here
  · cases same
    exact ⟨m, found, (flags k).symm.trans confirmed⟩
  · exact ⟨m₁, here, confirmed⟩

theorem Flagged.erase (flagged : Flagged ⟨s, taken, forming⟩)
    (heap : s'.heap = Function.update s.heap msg none) (events : s.events ⊆ s'.events) :
    Flagged ⟨s', taken', forming'⟩ := by
  apply flagged.keep events
  intro a m₁ k here confirmed
  change s'.heap a = some m₁ at here
  rw [heap] at here
  obtain ⟨_, none⟩ | ⟨_, here⟩ := heap_update_iff.mp here
  · cases none
  · exact ⟨m₁, here, confirmed⟩

theorem Flagged.move (flagged : Flagged v) (issued : Issued w v.s) (move : Move w label v v') :
    Flagged v' := by
  have lostFlags : ∀ {m : MsgOutbound} k, (part (partLost m) k).confirmed = (part m k).confirmed :=
    fun _ => rfl
  have openedFlags : ∀ {m : MsgOutbound} {type : Int} {receipt : Nat} k,
      (part { m with type, receipt } k).confirmed = (part m k).confirmed := fun _ => rfl
  have sentFlags : ∀ {m : MsgOutbound} {i receipt : Nat} k,
      (part { partSent m i receipt with lastSent := i } k).confirmed = (part m k).confirmed :=
    fun _ => confirmed_partSent
  cases move with
  | idle | short | firstRefused | nextRefused | failedRefused | cleared => exact flagged.frame rfl (List.Subset.refl _)
  | passed => exact flagged.frame rfl (List.subset_cons_self _ _)
  | @begun s friendNumber message m _ split =>
    intro a m' k here confirmed
    obtain ⟨_, same⟩ | ⟨_, here⟩ := heap_update_iff.mp here
    · cases same
      have blank : (part m k).confirmed = false := (blank_of_unsent (unsent_of_split split) k).2
      exact absurd (blank.symm.trans confirmed) Bool.false_ne_true
    · exact flagged a m' k here confirmed
  | opened found => exact flagged.update found openedFlags rfl (List.subset_cons_self _ _)
  | dropped => exact flagged.erase rfl (List.Subset.refl _)
  | firstSent found | nextSent found => exact flagged.update found sentFlags rfl (List.Subset.refl _)
  | failedSent found =>
    exact flagged.update found (fun _ => confirmed_partSent) rfl (List.Subset.refl _)
  | lost _ _ found => exact flagged.update found lostFlags rfl (List.Subset.refl _)
  | @resent s now j m _ _ found =>
    have first : Flagged ⟨lostState s j (s.receipts.receipts j).msg m, none, none⟩ :=
      flagged.update found lostFlags rfl (List.Subset.refl _)
    exact first.update (Function.update_self ..) (fun _ => confirmed_partSent) rfl (List.Subset.refl _)
  | @confirmed s friendNumber messageId j m db proper _ held found =>
    have issued : Issued w s := issued
    have heldJ : s.receipts.key j ≠ 0 := held ▸ proper
    obtain ⟨positive, inside⟩ := issued.part heldJ found
    intro a m' k here confirmed
    obtain ⟨rfl, same⟩ | ⟨_, here⟩ := heap_update_iff.mp here
    · cases same
      have within : (s.receipts.receipts j).partNo - 1 < m.fragments.length := by
        rw [(issued.shaped found).1]
        omega
      rw [part_partConfirmed within] at confirmed
      split at confirmed
      · rename_i own
        have number : k + 1 = (s.receipts.receipts j).partNo := by omega
        exact ⟨s.receipts.key j, by rw [number]; exact List.mem_cons_self⟩
      · obtain ⟨r, member⟩ := flagged _ m k found confirmed
        exact ⟨r, List.mem_cons_of_mem _ member⟩
    · obtain ⟨r, member⟩ := flagged a m' k here confirmed
      exact ⟨r, List.mem_cons_of_mem _ member⟩
  | completed => exact flagged.erase rfl (List.subset_cons_self _ _)

theorem Flagged.chain {admitted : Label → Prop} (flagged : Flagged v) (issued : Issued w v.s)
    (chain : Chain w admitted v v') : Flagged v' := by
  have both := chain.invariant (I := fun v => Issued w v.s ∧ Flagged v)
    (fun _ move before => ⟨before.1.move move, before.2.move before.1 move⟩) ⟨issued, flagged⟩
  exact both.2

/-- What the events say of parts and messages was so. -/
structure Backed (w : World) (originals : Nat → Option MsgOutbound) (s : State) : Prop where
  flagged : Flagged ⟨s, none, none⟩
  sent : ∀ a partNo r, .confirmed a partNo r ∈ s.events → r ≠ 0 ∧ SentAs w s a partNo r
  closed : ∀ a friendNumber n, .completed a friendNumber n ∈ s.events →
    ∃ built, originals a = some built ∧ ∀ k < built.numParts, ∃ r, .confirmed a (k + 1) r ∈ s.events

/-- Nothing is confirmed or completed. -/
theorem Backed.quiet {originals' : Nat → Option MsgOutbound} {admitted : Label → Prop}
    (backed : Backed w originals s) (issued : Issued w s)
    (chain : Chain w admitted ⟨s, none, none⟩ ⟨s', none, none⟩)
    (agree : ∀ a friendNumber n, .completed a friendNumber n ∈ s.events → originals' a = originals a)
    (events : s.events ⊆ s'.events)
    (quiet : ∀ e ∈ s'.events, e ∈ s.events ∨ (∀ a partNo r, e ≠ .confirmed a partNo r) ∧
      ∀ a friendNumber n, e ≠ .completed a friendNumber n) : Backed w originals' s' where
  flagged := backed.flagged.chain issued chain
  sent a partNo r member := by
    have earlier := (quiet _ member).resolve_right fun new => new.1 a partNo r rfl
    obtain ⟨proper, sent⟩ := backed.sent a partNo r earlier
    exact ⟨proper, sent.chain chain⟩
  closed a friendNumber n member := by
    have earlier := (quiet _ member).resolve_right fun new => new.2 a friendNumber n rfl
    obtain ⟨built, known, all⟩ := backed.closed a friendNumber n earlier
    refine ⟨built, (agree a friendNumber n earlier).trans known, fun k inside => ?_⟩
    obtain ⟨r, confirmed⟩ := all k inside
    exact ⟨r, events confirmed⟩

/-- Sending and periodic passes confirm and complete nothing. -/
theorem events_of_noReceipt (chain : Chain w NoReceipt v v') : v.s.events ⊆ v'.s.events ∧
    ∀ e ∈ v'.s.events, e ∈ v.s.events ∨ (∀ a partNo r, e ≠ .confirmed a partNo r) ∧
      ∀ a friendNumber n, e ≠ .completed a friendNumber n := by
  refine chain.invariant (I := fun v' => v.s.events ⊆ v'.s.events ∧
    ∀ e ∈ v'.s.events, e ∈ v.s.events ∨ (∀ a partNo r, e ≠ .confirmed a partNo r) ∧
      ∀ a friendNumber n, e ≠ .completed a friendNumber n) ?_ ⟨List.Subset.refl _, fun _ => .inl⟩
  rintro label v₁ v₂ noReceipt move ⟨grown, quiet⟩
  cases move with
  | passed | confirmed | completed | cleared => exact absurd rfl (noReceipt _ _)
  | opened =>
    refine ⟨List.subset_cons_of_subset _ grown, fun e member => ?_⟩
    rcases List.mem_cons.mp member with rfl | earlier
    · exact .inr ⟨fun _ _ _ => Event.noConfusion, fun _ _ _ => Event.noConfusion⟩
    · exact quiet e earlier
  | _ => exact ⟨grown, quiet⟩

/-- Of a message that counts all its parts as confirmed, each was. -/
theorem all_confirmed (owned : Owned v) (flagged : Flagged v) (found : v.s.heap a = some m)
    (all : m.numParts ≤ m.numConfirmed) : ∀ k < m.numParts, ∃ r, .confirmed a (k + 1) r ∈ v.s.events := by
  intro k inside
  have within : confirmedParts m ⊆ Finset.range m.numParts := Finset.filter_subset _ _
  have whole : confirmedParts m = Finset.range m.numParts := by
    refine Finset.eq_of_subset_of_card_le within ?_
    rw [Finset.card_range, ← owned.counted a m found]
    exact all
  have member : k ∈ confirmedParts m := by
    rw [whole]
    exact Finset.mem_range.mpr inside
  exact flagged a m k found (Finset.mem_filter.mp member).2

theorem Backed.processed {messageId : Nat} (increasing : Increasing w) (backed : Backed w originals s)
    (settled : Settled w s) (copied : Copied originals s) (proper : messageId ≠ 0)
    (processed : Processed w messageId s s') : Backed w originals s' := by
  have issued : Issued w s := settled.orderly.issued
  have chain := processed.chain 0 proper
  have flagged := backed.flagged.chain issued chain
  obtain ⟨j, m, _, held, _, done, events, only⟩ := processed.events
  have grown : s.events ⊆ s'.events := by
    rw [events]
    exact List.subset_append_right _ _
  refine ⟨flagged, fun a partNo r member => ?_, fun a friendNumber n member => ?_⟩
  · rw [events, List.append_assoc] at member
    rcases List.mem_append.mp member with complete | rest
    · cases only _ complete
    · rcases List.mem_cons.mp rest with now | earlier
      · cases now
        have sent := issued.recorded j (held ▸ proper)
        rw [held] at sent
        exact ⟨proper, sent.chain chain⟩
      · obtain ⟨given, sent⟩ := backed.sent a partNo r earlier
        exact ⟨given, sent.chain chain⟩
  · have old : .completed a friendNumber n ∈ s.events → ∃ built, originals a = some built ∧
        ∀ k < built.numParts, ∃ r, .confirmed a (k + 1) r ∈ s'.events := by
      intro earlier
      obtain ⟨built, known, all⟩ := backed.closed a friendNumber n earlier
      refine ⟨built, known, fun k inside => ?_⟩
      obtain ⟨r, confirmed⟩ := all k inside
      exact ⟨r, grown confirmed⟩
    cases processed with
    | @completed j m m' db lookup held found stored same all result =>
      subst same result
      rcases List.mem_cons.mp member with now | earlier
      · cases now
        obtain ⟨built, known, copies⟩ := copied _ m found
        have confirm : Move w (.receipt 0 messageId) ⟨s, none, none⟩ ⟨confirmedState s j m db, some j, none⟩ :=
          .confirmed proper lookup held found stored
        have owned := settled.owned.move settled.orderly increasing (fun _ => Label.noConfusion) confirm
        have confirmed := all_confirmed owned (backed.flagged.move issued confirm)
          (Function.update_self ..) all
        refine ⟨built, known, fun k inside => ?_⟩
        obtain ⟨r, member⟩ := confirmed k (copies.numParts ▸ inside)
        exact ⟨r, List.mem_cons_of_mem _ member⟩
      · exact old ((List.mem_cons.mp earlier).resolve_left nofun)
    | @continued j m m' db s₁ lookup held found stored same more serves result =>
      subst same result
      change _ ∈ s₁.events at member
      rw [serves.events] at member
      exact old ((List.mem_cons.mp member).resolve_left nofun)

theorem Backed.step {op : Op} (increasing : Increasing w) (backed : Backed w originals s)
    (settled : Settled w s) (copied : Copied originals s) (proper : Proper op)
    (agree : ∀ a friendNumber n, .completed a friendNumber n ∈ s.events →
      enter w ⟨s, originals⟩ op a = originals a)
    (ran : step w op s = .ok s') : Backed w (enter w ⟨s, originals⟩ op) s' := by
  have issued : Issued w s := settled.orderly.issued
  cases op with
  | send friendNumber type bytes beyond =>
    obtain ⟨grown, quiet⟩ := events_of_noReceipt (send_chain_noReceipt ran)
    exact backed.quiet issued (send_chain ran) agree grown quiet
  | receipt friendNumber messageId =>
    rcases receipt_cases ran with ⟨_, _, rfl⟩ | ⟨missing, outside, rfl⟩ | processed
    · exact backed
    · have pass : Move w (.receipt friendNumber messageId) ⟨s, none, none⟩ _ := .passed missing outside
      have chain : Chain w (fun _ => True) ⟨s, none, none⟩ ⟨_, none, none⟩ := .single trivial pass
      refine backed.quiet issued chain agree (List.subset_cons_self _ _) fun e member => ?_
      rcases List.mem_cons.mp member with rfl | earlier
      · exact .inr ⟨fun _ _ _ => Event.noConfusion, fun _ _ _ => Event.noConfusion⟩
      · exact .inl earlier
    · exact backed.processed increasing settled copied proper processed
  | periodic =>
    obtain ⟨grown, quiet⟩ := events_of_noReceipt (periodic_chain_noReceipt ran)
    exact backed.quiet issued (periodic_chain ran) agree grown quiet

/-! ## The sender's calls -/

/-- All that is kept of the sender, with what its messages were built as. -/
structure Traced (w : World) (originals : Nat → Option MsgOutbound) (s : State) : Prop where
  settled : Settled w s
  reported : Reported w ⟨s, none, none⟩
  faithful : Faithful w ⟨s, originals⟩
  posted : Posted w originals s
  backed : Backed w originals s

theorem traced_initial (range : ProperRange w.params) : Traced w (fun _ => none) (initialState w) where
  settled := settled_initial
  reported := .initial range
  faithful := by
    refine ⟨.initial, Orderly.initial.linked, fun a m found => ?_, fun call member => ?_⟩
    · cases found
    · cases member
  posted := by
    refine ⟨rfl, fun p member => ?_, fun p q member => ?_, fun a m found => ?_, fun i call at_i => ?_⟩
    · cases member
    · cases member
    · cases found
    · cases at_i
  backed := by
    refine ⟨fun a m k found => ?_, fun a partNo r member => ?_, fun a friendNumber n member => ?_⟩
    · cases found
    · cases member
    · cases member

/-- A message that was completed has its address. -/
theorem Traced.below {friendNumber n : Nat} (traced : Traced w originals s)
    (member : .completed a friendNumber n ∈ s.events) : a < s.fresh := by
  obtain ⟨id, bytes, given⟩ := traced.reported.logged.completed a friendNumber n member
  exact (traced.posted.known ⟨a, friendNumber, id, bytes, n⟩ given).below

theorem Traced.step {op : Op} (increasing : Increasing w) (range : ProperRange w.params)
    (small : w.params.fragmentsAtATime < 2 ^ 32) (traced : Traced w originals s)
    (leading : Leading w s op) (sendable : Sendable w s op) (ran : step w op s = .ok s') :
    Traced w (enter w ⟨s, originals⟩ op) s' ∧ Added s s' := by
  have guarded := guarded_of_leading increasing traced.settled leading
  have proper : Proper op := proper_of_guarded guarded
  have reported := (step_chain proper ran).invariant (I := Reported w)
    (fun _ move before => before.move increasing range move) traced.reported
  have entered : ledgerStep w op ⟨s, originals⟩ = .ok ⟨s', enter w ⟨s, originals⟩ op⟩ :=
    bind_ok.mpr ⟨s', ran, rfl⟩
  have backed := traced.backed.step increasing traced.settled traced.faithful.copied proper
    (fun a f n member => enter_below (traced.below member)) ran
  obtain ⟨posted, added⟩ : Posted w (enter w ⟨s, originals⟩ op) s' ∧ Added s s' := by
    cases op with
    | send friendNumber type bytes beyond =>
      exact traced.posted.send increasing range small traced.reported sendable ran
    | receipt | periodic =>
      obtain ⟨posted, same⟩ := traced.posted.later proper nofun ran
      exact ⟨posted, same.added⟩
  exact ⟨⟨traced.settled.step increasing small leading ran, reported,
    traced.faithful.step guarded entered, posted, backed⟩, added⟩

/-! ## The client's callback -/

def callbackNumber : Event → Option Nat
  | .completed _ _ receipt => some receipt
  | .passed _ receipt => some receipt
  | _ => none

/-- The numbers that the client's receipt callback got, last first. -/
def callbacks (s : State) : List Nat := s.events.filterMap callbackNumber

/-- A callback with the number of a message is for the message. -/
theorem Traced.callback {p : Posting} (traced : Traced w originals s) (given : p.event ∈ s.events) {e : Event}
    (member : e ∈ s.events) (number : callbackNumber e = some p.receipt) :
    ∃ friendNumber, e = .completed p.msg friendNumber p.receipt := by
  have inRange := traced.reported.logged.returned _ _ _ _ _ given
  cases e with
  | completed b friendNumber n =>
    cases number
    obtain ⟨id, bytes, given'⟩ := traced.reported.logged.completed b friendNumber p.receipt member
    have same := traced.posted.distinct ⟨b, friendNumber, id, bytes, p.receipt⟩ p given' given (.inr (.inr rfl))
    exact ⟨friendNumber, by rw [← same]⟩
  | passed friendNumber n =>
    cases number
    exact absurd inRange (traced.reported.passed friendNumber p.receipt member)
  | returned | confirmed => cases number

theorem count_callbacks {n : Nat} (own : ∀ e ∈ s.events, callbackNumber e = some n → completionOf a e ≠ none) :
    (callbacks s).count n ≤ (completions s a).length := by
  rw [callbacks, completions, List.count_filterMap, List.length_filterMap_eq_countP]
  apply List.countP_mono_left
  intro e member called
  exact Option.isSome_iff_ne_none.mpr (own e member (eq_of_beq called))

/-- The client hears of a message once at most. -/
theorem Traced.once {p : Posting} (traced : Traced w originals s) (given : p.event ∈ s.events) :
    (callbacks s).count p.receipt ≤ 1 := by
  have count : (callbacks s).count p.receipt ≤ (completions s p.msg).length := by
    apply count_callbacks
    intro e member number
    obtain ⟨friendNumber, rfl⟩ := traced.callback given member number
    rw [completionOf, if_pos rfl]
    exact Option.some_ne_none _
  rcases traced.reported.closing.returned _ _ _ _ _ given with ⟨m, found, _⟩ | done
  · rw [traced.reported.closing.silent _ (.inl ⟨m, found⟩)] at count
    exact count.trans (Nat.zero_le 1)
  · rw [done] at count
    exact count

end Defragmenter.Confirmations
