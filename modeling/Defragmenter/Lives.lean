import Defragmenter.Duplex
import Defragmenter.MessageIds

/-! What a process and its successors on one store do together. They start
under any limits, send long messages, receive messages and answer them; what the
base library takes in all their lives for fragments is cut from the messages
they were given, and of these no two to a friend have one id. -/
namespace Defragmenter.Lives
open Decimal Marker Database InboundStore OutboundStore Split Receipts Sender Moves Provenance Tracking
open Restart hiding Recorded
open Restored Receiver Isolation Conversations Halves Duplex Runs
open MessageIds (Recorded accepted mem_accepted Fewer fewer_sent fewer_confirmed recorded_inserted transit_pos)
open Reentry (ClientSend clientSend)

/-- A long message that was taken. -/
structure Post where
  friendNumber : Nat
  id : Nat
  message : List UInt8
  deriving DecidableEq

def Post.name (p : Post) : Nat × Nat := (p.friendNumber, p.id)

def postOf : Event → Option Post
  | .returned _ friendNumber id message _ => some ⟨friendNumber, id, message⟩
  | _ => none

/-- The long messages taken so far, `earlier` being those of the predecessors. -/
def postsOf (s : State) (earlier : List Post) : List Post := s.events.filterMap postOf ++ earlier

/-- A process and its predecessors on the same store. -/
structure Life where
  world : World
  state : State
  /-- The long messages that the predecessors took, last first. -/
  earlierPosts : List Post := []
  /-- The fragments of the predecessors that the base library took: the friend and the bytes. -/
  earlierSent : List (Nat × List UInt8) := []
  /-- All messages that came in, each with what the client was handed, last first. -/
  log : List (Call × Option Handed) := []

def Life.posts (l : Life) : List Post := postsOf l.state l.earlierPosts

/-- All fragments that went out. -/
def Life.sent (l : Life) : List (Nat × List UInt8) := l.earlierSent ++ accepted l.world 0 l.state.base

inductive Act where
  | own (op : Op)
  | incoming (c : Call) (answers : List ClientSend)
  | restart (world : World)

def act : Act → Life → Except Fault Life
  | .own op, l => do
    let state ← step l.world op l.state
    pure { l with state }
  | .incoming c answers, l => do
    let (state, handed) ← receiveAnswering l.world c answers l.state
    pure { l with state, log := (c, handed) :: l.log }
  | .restart world, l => do
    let state ← initializeBoth world { db := reopened l.state.db }
    pure { world, state, earlierPosts := l.posts, earlierSent := l.sent, log := l.log }

/-- A first process over an empty store. -/
def Founded (l : Life) : Prop :=
  ∃ world state, world.params.fragmentsAtATime < 2 ^ 32 ∧ Started world state ∧ l = { world, state }

/-- A receipt has a number, and `fragmentsAtATime` is an `unsigned`. -/
def Sized : Act → Prop
  | .own op => Proper op
  | .incoming .. => True
  | .restart world => world.params.fragmentsAtATime < 2 ^ 32

instance : DecidablePred Sized := fun a =>
  match a with
  | .own op => inferInstanceAs (Decidable (Proper op))
  | .incoming .. => .isTrue trivial
  | .restart world => inferInstanceAs (Decidable (world.params.fragmentsAtATime < 2 ^ 32))

/-! ## Fragments of a message -/

-- `Cut id message d`: under this id the bytes `d` are a fragment of the message.
variable {Cut : Nat → List UInt8 → List UInt8 → Prop}

/-- What is left of a message are fragments of these bytes. -/
def Cuts (Cut : Nat → List UInt8 → List UInt8 → Prop) (m : MsgOutbound) (message : List UInt8) : Prop :=
  ∀ i d, (part m i).data = some d → Cut m.id message d

/-- Whatever the process splits, starting or started, it splits so. -/
def Splits (Cut : Nat → List UInt8 → List UInt8 → Prop) (w : World) : Prop :=
  ∀ big, big = 0 ∨ big = 63 → ∀ message id m,
    splitMessage big message w.params.maxMessageLength id = .ok m → Cuts Cut m message

variable {w : World} {s s' : State} {v v' : View} {label : Label} {m m' : MsgOutbound} {message : List UInt8}
  {earlier : List Post} {taken taken' : Option Nat} {forming : Option (Nat × List UInt8)} {msg a : Nat}
  {db db' : Db} {friendNumber id : Nat}

theorem Cuts.fewer (cuts : Cuts Cut m message) (fewer : Fewer m m') (same : m'.id = m.id) : Cuts Cut m' message :=
  fun i d held => same ▸ cuts i d (fewer i d held)

/-- A message that is loaded has some of the fragments its bytes are split into. -/
theorem cuts_of_loaded {p : PendingSent} (splits : Splits Cut w) (found : loaded w p = some m) :
    Cuts Cut m p.message ∧ m.friendNumber = p.friendNumber ∧ m.id = p.id := by
  unfold loaded at found
  cases split : splitMessage 0 p.message w.params.maxMessageLength p.id with
  | error fault =>
    rw [split] at found
    cases found
  | ok built =>
    rw [split] at found
    change resume p built = some m at found
    unfold resume at found
    dsimp only at found
    split at found
    · cases found
      have cuts := splits 0 (.inl rfl) _ _ _ split
      refine ⟨cuts.fewer (fun i d held => ?_) rfl, rfl, (unsent_of_split split).id_eq⟩
      simp only [Moves.part, List.getD_eq_getElem?_getD, List.getElem?_zipWith] at held ⊢
      cases built_i : built.fragments[i]? with
      | none =>
        rw [built_i] at held
        cases held
      | some f =>
        rw [built_i] at held
        cases stored : p.confirmed[i]? with
        | none =>
          rw [stored] at held
          cases held
        | some b =>
          rw [stored] at held
          simp only [restoreConfirmed, Option.getD_some] at held
          split at held
          · exact held
          · cases held
    · cases found

/-! ## What one process keeps -/

/-- The fragment is one of a message that was taken, or of the one that is being
built, of which then a part is on its way. -/
def Traced (Cut : Nat → List UInt8 → List UInt8 → Prop) (earlier : List Post) (v : View) (a friendNumber : Nat)
    (d : List UInt8) : Prop :=
  ∃ id message, Cut id message d ∧ (⟨friendNumber, id, message⟩ ∈ postsOf v.s earlier ∨
    v.forming = some (a, message) ∧
      ∃ m, v.s.heap a = some m ∧ m.friendNumber = friendNumber ∧ m.id = id ∧ 0 < m.numTransit)

/-- Messages have names of their own and are on record, and what is left of them
and what went out are fragments of them. -/
structure Posted (Cut : Nat → List UInt8 → List UInt8 → Prop) (w : World) (earlier : List Post) (v : View) : Prop where
  reserved : v.s.markerMaxSizeEver = 63
  named : ((postsOf v.s earlier).map Post.name).Nodup
  bounded : ∀ p ∈ postsOf v.s earlier, p.message.length < 2 ^ 31
  recorded : ∀ p ∈ postsOf v.s earlier, Recorded v.s.db p.friendNumber p.id
  stored : ∀ friendNumber id d, (rows v.s.db (outboundKey friendNumber id)).dataRow = some d →
    ⟨friendNumber, id, d.message⟩ ∈ postsOf v.s earlier
  cut : ∀ a m, v.s.heap a = some m → ∃ message, Cuts Cut m message ∧
    (⟨m.friendNumber, m.id, message⟩ ∈ postsOf v.s earlier ∨ v.forming = some (a, message))
  traced : ∀ i call, v.s.base[i]? = some call → w.answer i ≠ 0 → ∀ a partNo, call.part = some (a, partNo) →
    ∀ d, call.data = some d → Traced Cut earlier v a call.friendNumber d

/-- A store with the same records, and bytes that were there. -/
structure SameBytes (db db' : Db) : Prop where
  recorded : ∀ friendNumber id, Recorded db friendNumber id → Recorded db' friendNumber id
  bytes : ∀ friendNumber id d', (rows db' (outboundKey friendNumber id)).dataRow = some d' →
    ∃ d, (rows db (outboundKey friendNumber id)).dataRow = some d ∧ d.message = d'.message

theorem SameBytes.refl : SameBytes db db := ⟨fun _ _ => id, fun _ _ d' held => ⟨d', held, rfl⟩⟩

/-- The same rows of outgoing messages. -/
theorem sameBytes_outgoing (outgoing : ∀ key, key.outbound = true → rows db' key = rows db key) :
    SameBytes db db' := by
  refine ⟨fun friendNumber id held => ?_, fun friendNumber id d' held => ⟨d', ?_, rfl⟩⟩
  · rw [Recorded, outgoing (outboundKey friendNumber id) rfl]
    exact held
  · rw [← outgoing (outboundKey friendNumber id) rfl]
    exact held

theorem sameBytes_cleared : SameBytes db (dbClearOutboundPending db friendNumber id) := by
  refine ⟨fun friend id' held => ?_, fun friend id' d' held => ⟨d', ?_, rfl⟩⟩
  · rw [Recorded, rows_cleared]
    split
    · exact held
    · exact held
  · rw [rows_cleared] at held
    split at held
    · cases held
    · exact held

theorem sameBytes_confirmed {partNo tm : Nat} (ran : dbOutboundPartConfirmed db friendNumber id partNo tm = .ok db') :
    SameBytes db db' := by
  have whole : partConfirmedUntil .dataDelete db friendNumber id partNo tm = .ok db' := by
    rw [partConfirmedUntil_whole (by simp)]
    exact ran
  have agree := partConfirmedUntil_agree whole
  refine ⟨fun friend id' held => ?_, fun friend id' d' held => ?_⟩
  · rw [Recorded, metaRow_of_confirmed ran]
    exact held
  · by_cases own : outboundKey friend id' = outboundKey friendNumber id
    · rw [own] at held ⊢
      simp only [dbOutboundPartConfirmed, getFragmentsDataRowid] at ran
      split at ran
      · cases ran
      · rename_i rowid located
        obtain ⟨_, same⟩ := Option.ite_none_right_eq_some.mp located
        obtain rfl := Option.some.inj same
        split at ran
        · cases ran
        · rename_i d found
          split at ran
          · cases ran
          · obtain ⟨confirmed, _, ran⟩ := bind_ok.mp ran
            obtain ⟨db₁, updated, ran⟩ := bind_ok.mp ran
            cases ran
            unfold updateFragmentedMetaDone at updated
            split at updated
            · cases updated
            · cases updated
              refine ⟨d, found, ?_⟩
              simp only [rows, dbUnlock, outboundKey, AList.lookup_insert, Option.some.injEq] at held
              have same := congrArg DataRow.message held
              exact same
    · exact ⟨d', by rw [← agree _ own]; exact held, rfl⟩

/-- The messages change where they stand, and the store keeps its bytes. -/
theorem Posted.frame (posted : Posted Cut w earlier ⟨s, taken, forming⟩) (bytes : SameBytes s.db s'.db)
    (reserved : s'.markerMaxSizeEver = s.markerMaxSizeEver)
    (events : s'.events.filterMap postOf = s.events.filterMap postOf)
    (heap : ∀ a m', s'.heap a = some m' → ∃ m, s.heap a = some m ∧ SameShape m m' ∧ Fewer m m')
    (base : s'.base = s.base)
    (moving : ∀ a m, s.heap a = some m → 0 < m.numTransit → (∃ bytes, forming = some (a, bytes)) →
      ∃ m', s'.heap a = some m' ∧ SameShape m m' ∧ 0 < m'.numTransit) :
    Posted Cut w earlier ⟨s', taken', forming⟩ := by
  have posts : postsOf s' earlier = postsOf s earlier := by rw [postsOf, events, postsOf]
  refine ⟨reserved.trans posted.reserved, ?_, ?_, fun p member => ?_, fun friend id d' held => ?_,
    fun a m' here => ?_, fun i call at_i took a partNo mine d held => ?_⟩
  · change ((postsOf s' earlier).map Post.name).Nodup
    rw [posts]
    exact posted.named
  · change ∀ p ∈ postsOf s' earlier, _
    rw [posts]
    exact posted.bounded
  · change p ∈ postsOf s' earlier at member
    rw [posts] at member
    exact bytes.recorded _ _ (posted.recorded p member)
  · obtain ⟨d, before, same⟩ := bytes.bytes friend id d' held
    change _ ∈ postsOf s' earlier
    rw [posts, ← same]
    exact posted.stored friend id d before
  · obtain ⟨m, before, shape, fewer⟩ := heap a m' here
    obtain ⟨message, cuts, there⟩ := posted.cut a m before
    refine ⟨message, cuts.fewer fewer shape.id, ?_⟩
    change _ ∈ postsOf s' earlier ∨ _
    rw [posts, shape.friendNumber, shape.id]
    exact there
  · change s'.base[i]? = some call at at_i
    rw [base] at at_i
    obtain ⟨id, message, cut, there⟩ := posted.traced i call at_i took a partNo mine d held
    refine ⟨id, message, cut, ?_⟩
    change _ ∈ postsOf s' earlier ∨ _
    rw [posts]
    refine there.imp_right ?_
    rintro ⟨forms, m, here, friend, named, moves⟩
    obtain ⟨m', here', shape, moves'⟩ := moving a m here moves ⟨message, forms⟩
    exact ⟨forms, m', here', shape.friendNumber.trans friend, shape.id.trans named, moves'⟩

/-- No message changes. -/
theorem Posted.still (posted : Posted Cut w earlier ⟨s, taken, forming⟩) (bytes : SameBytes s.db s'.db)
    (reserved : s'.markerMaxSizeEver = s.markerMaxSizeEver)
    (events : s'.events.filterMap postOf = s.events.filterMap postOf) (heap : s'.heap = s.heap)
    (base : s'.base = s.base) : Posted Cut w earlier ⟨s', taken', forming⟩ := by
  refine posted.frame bytes reserved events (fun a m here => ?_) base fun a m here moves _ => ?_
  · exact ⟨m, heap ▸ here, ⟨rfl, rfl, rfl, rfl⟩, fun _ _ held => held⟩
  · exact ⟨m, heap ▸ here, ⟨rfl, rfl, rfl, rfl⟩, moves⟩

theorem Posted.update (posted : Posted Cut w earlier ⟨s, taken, forming⟩) (bytes : SameBytes s.db s'.db)
    (reserved : s'.markerMaxSizeEver = s.markerMaxSizeEver)
    (events : s'.events.filterMap postOf = s.events.filterMap postOf)
    (here : s.heap msg = some m) (shape : SameShape m m') (fewer : Fewer m m')
    (heap : s'.heap = Function.update s.heap msg (some m')) (base : s'.base = s.base)
    (moving : (∃ bytes, forming = some (msg, bytes)) → 0 < m'.numTransit) :
    Posted Cut w earlier ⟨s', taken', forming⟩ := by
  refine posted.frame bytes reserved events (fun a m₁ after => ?_) base fun a m₁ before moves forms => ?_
  · rw [heap] at after
    obtain ⟨mine, same⟩ | ⟨_, before⟩ := heap_update_iff.mp after
    · cases same
      exact ⟨m, mine ▸ here, shape, fewer⟩
    · exact ⟨m₁, before, ⟨rfl, rfl, rfl, rfl⟩, fun _ _ held => held⟩
  · by_cases mine : a = msg
    · subst mine
      cases here.symm.trans before
      exact ⟨m', heap ▸ Function.update_self .., shape, moving forms⟩
    · exact ⟨m₁, by rw [heap, Function.update_of_ne mine, before], ⟨rfl, rfl, rfl, rfl⟩, moves⟩

/-- A message goes that is not being built. -/
theorem Posted.erase (posted : Posted Cut w earlier ⟨s, taken, none⟩) (bytes : SameBytes s.db s'.db)
    (reserved : s'.markerMaxSizeEver = s.markerMaxSizeEver)
    (events : s'.events.filterMap postOf = s.events.filterMap postOf)
    (heap : s'.heap = Function.update s.heap msg none) (base : s'.base = s.base) :
    Posted Cut w earlier ⟨s', taken', none⟩ := by
  refine posted.frame bytes reserved events (fun a m after => ?_) base fun a m _ _ forms => ?_
  · rw [heap] at after
    obtain ⟨_, none⟩ | ⟨_, before⟩ := heap_update_iff.mp after
    · cases none
    · exact ⟨m, before, ⟨rfl, rfl, rfl, rfl⟩, fun _ _ held => held⟩
  · obtain ⟨_, none⟩ := forms
    cases none

/-- One more call of the base library. -/
theorem Posted.snoc {call : BaseCall} (posted : Posted Cut w earlier ⟨s, taken, forming⟩)
    (new : w.answer s.base.length ≠ 0 → ∀ a partNo, call.part = some (a, partNo) → ∀ d, call.data = some d →
      Traced Cut earlier ⟨s, taken, forming⟩ a call.friendNumber d)
    (db : s'.db = s.db) (reserved : s'.markerMaxSizeEver = s.markerMaxSizeEver) (events : s'.events = s.events)
    (heap : s'.heap = s.heap) (base : s'.base = s.base ++ [call]) : Posted Cut w earlier ⟨s', taken', forming⟩ := by
  have posts : postsOf s' earlier = postsOf s earlier := by rw [postsOf, events, postsOf]
  have traced : ∀ a friend d, Traced Cut earlier ⟨s, taken, forming⟩ a friend d →
      Traced Cut earlier ⟨s', taken', forming⟩ a friend d := by
    rintro a friend d ⟨id, message, cut, there⟩
    refine ⟨id, message, cut, ?_⟩
    change _ ∈ postsOf s' earlier ∨ _ ∧ ∃ m, s'.heap a = some m ∧ _
    rw [posts, heap]
    exact there
  refine ⟨reserved.trans posted.reserved, ?_, ?_, ?_, ?_, ?_, fun i other at_i took a partNo mine d held => ?_⟩
  · simpa only [posts] using posted.named
  · simpa only [posts] using posted.bounded
  · simpa only [posts, db] using posted.recorded
  · simpa only [posts, db] using posted.stored
  · simpa only [posts, heap] using posted.cut
  · change s'.base[i]? = some other at at_i
    rw [base] at at_i
    rcases getElem?_snoc at_i with before | ⟨rfl, rfl⟩
    · exact traced _ _ _ (posted.traced i other before took a partNo mine d held)
    · exact traced _ _ _ (new took a partNo mine d held)

/-- A fragment goes out for a message that was taken or is being built. -/
theorem Posted.sent {i : Nat} (posted : Posted Cut w earlier ⟨s, taken, forming⟩)
    (here : s.heap msg = some m) (shape : SameShape m m') (fewer : Fewer m m')
    (moving : (∃ bytes, forming = some (msg, bytes)) → 0 < m'.numTransit) :
    Posted Cut w earlier ⟨sentState w s msg m i m', taken', forming⟩ := by
  have first : Posted Cut w earlier ⟨{ s with heap := Function.update s.heap msg (some m') }, taken, forming⟩ :=
    posted.update .refl rfl rfl here shape fewer rfl rfl moving
  refine first.snoc (fun _ a partNo mine d held => ?_) rfl rfl rfl rfl rfl
  cases mine
  obtain ⟨message, cuts, there⟩ := posted.cut msg m here
  refine ⟨m.id, message, cuts i d held, there.imp_right fun forms => ?_⟩
  exact ⟨forms, m', Function.update_self .., shape.friendNumber, shape.id, moving ⟨message, forms⟩⟩

theorem Posted.begun (posted : Posted Cut w earlier ⟨s, none, none⟩) (splits : Splits Cut w)
    (split : splitMessage s.markerMaxSizeEver message w.params.maxMessageLength
      (max (w.clock s.ticks) (s.lastMsgId + 1)) = .ok m) :
    Posted Cut w earlier ⟨begunState w s friendNumber m, none, some (s.fresh, message)⟩ where
  reserved := posted.reserved
  named := posted.named
  bounded := posted.bounded
  recorded := posted.recorded
  stored := posted.stored
  cut a m' here := by
    obtain ⟨mine, same⟩ | ⟨_, before⟩ := heap_update_iff.mp here
    · cases same
      have reserved : s.markerMaxSizeEver = 63 := posted.reserved
      have cuts : Cuts Cut m message := splits _ (.inr reserved) _ _ _ split
      exact ⟨message, fun i d held => cuts i d held, .inr (by rw [mine])⟩
    · obtain ⟨message', cuts, taken | none⟩ := posted.cut a m' before
      · exact ⟨message', cuts, .inl taken⟩
      · cases none
  traced i call at_i took a partNo mine d held := by
    obtain ⟨id, message', cut, taken | ⟨none, _⟩⟩ := posted.traced i call at_i took a partNo mine d held
    · exact ⟨id, message', cut, .inl taken⟩
    · cases none

/-- A key that can be recorded is that of no message that was taken. -/
theorem Posted.newName (posted : Posted Cut w earlier v) {type : Int} {limit : BlobLimit} {tm numParts receipt : Nat}
    (stored : dbInsertOutboundMessage limit v.s.db friendNumber type id tm numParts message receipt = .ok db) :
    (friendNumber, id) ∉ (postsOf v.s earlier).map Post.name := by
  intro member
  obtain ⟨p, taken, same⟩ := List.mem_map.mp member
  obtain ⟨rfl, rfl⟩ := Prod.mk.inj same
  have recorded := posted.recorded p taken
  rw [Recorded, (insert_ok_iff.mp stored).1] at recorded
  cases recorded

theorem Posted.opened {receipt : Nat} {type : Int} (posted : Posted Cut w earlier ⟨s, none, some (msg, message)⟩)
    (here : s.heap msg = some m)
    (stored : dbInsertOutboundMessage w.limit s.db m.friendNumber type m.id m.id m.numParts message receipt =
      .ok db) : Posted Cut w earlier ⟨openedState s msg m type message receipt db, none, none⟩ := by
  have new := posted.newName stored
  have posts : postsOf (openedState s msg m type message receipt db) earlier =
      ⟨m.friendNumber, m.id, message⟩ :: postsOf s earlier := rfl
  have older : ∀ {p}, p ∈ postsOf s earlier → p ∈ postsOf (openedState s msg m type message receipt db) earlier :=
    fun member => List.mem_cons_of_mem _ member
  -- the message that was being built is the one that was taken
  have own : ∀ {message'}, ⟨m.friendNumber, m.id, message'⟩ ∈ postsOf s earlier → False := fun member =>
    new (List.mem_map.mpr ⟨_, member, rfl⟩)
  refine ⟨posted.reserved, ?_, fun p member => ?_, fun p member => ?_, fun friend id d held => ?_,
    fun a m' after => ?_, fun i call at_i took a partNo mine d held => ?_⟩
  · rw [posts, List.map_cons]
    exact List.nodup_cons.mpr ⟨new, posted.named⟩
  · rcases List.mem_cons.mp member with rfl | before
    · have limit : w.limit.val < 2 ^ 31 := w.limit.property
      exact Nat.lt_of_le_of_lt (length_le_of_inserted stored) limit
    · exact posted.bounded p before
  · refine (recorded_inserted stored).mpr ?_
    rcases List.mem_cons.mp member with rfl | before
    · exact .inr ⟨rfl, rfl⟩
    · exact .inl (posted.recorded p before)
  · obtain ⟨fresh, others⟩ := rows_inserted stored
    have held : (rows db (outboundKey friend id)).dataRow = some d := held
    by_cases same : outboundKey friend id = outboundKey m.friendNumber m.id
    · rw [same, fresh] at held
      cases held
      cases same
      exact List.mem_cons_self
    · rw [others _ same] at held
      exact older (posted.stored friend id d held)
  · obtain ⟨_, same⟩ | ⟨other, before⟩ := heap_update_iff.mp after
    · cases same
      obtain ⟨message', cuts, taken | forms⟩ := posted.cut msg m here
      · exact (own taken).elim
      · cases forms
        exact ⟨message, cuts, .inl List.mem_cons_self⟩
    · obtain ⟨message', cuts, taken | forms⟩ := posted.cut a m' before
      · exact ⟨message', cuts, .inl (older taken)⟩
      · cases forms
        exact absurd rfl other
  · obtain ⟨id, message', cut, there⟩ := posted.traced i call at_i took a partNo mine d held
    refine ⟨id, message', cut, .inl ?_⟩
    rcases there with taken | ⟨forms, m', before, friend, named, _⟩
    · exact older taken
    · cases forms
      cases here.symm.trans before
      rw [← friend, ← named]
      exact List.mem_cons_self

/-- No part was taken, so nothing that went out was the message's. -/
theorem Posted.dropped (posted : Posted Cut w earlier ⟨s, none, some (msg, message)⟩)
    (here : s.heap msg = some m) (none_ : m.numTransit = 0) :
    Posted Cut w earlier ⟨msgOutboundDelete s msg, none, none⟩ where
  reserved := posted.reserved
  named := posted.named
  bounded := posted.bounded
  recorded := posted.recorded
  stored := posted.stored
  cut a m' after := by
    obtain ⟨_, none⟩ | ⟨other, before⟩ := heap_update_iff.mp after
    · cases none
    · obtain ⟨message', cuts, taken | forms⟩ := posted.cut a m' before
      · exact ⟨message', cuts, .inl taken⟩
      · cases forms
        exact absurd rfl other
  traced i call at_i took a partNo mine d held := by
    obtain ⟨id, message', cut, taken | ⟨forms, m', before, _, _, moves⟩⟩ :=
      posted.traced i call at_i took a partNo mine d held
    · exact ⟨id, message', cut, .inl taken⟩
    · cases forms
      cases here.symm.trans before
      omega

theorem Posted.move (posted : Posted Cut w earlier v) (splits : Splits Cut w)
    (small : w.params.fragmentsAtATime < 2 ^ 32) (move : Move w label v v') : Posted Cut w earlier v' := by
  cases move with
  | idle | passed | cleared => exact posted.still .refl rfl rfl rfl rfl
  | short none =>
    refine posted.snoc (fun _ a partNo mine => ?_) rfl rfl rfl rfl rfl
    rw [none] at mine
    cases mine
  | begun _ split => exact posted.begun splits split
  | opened here _ _ _ stored => exact posted.opened here stored
  | dropped here none => exact posted.dropped here none
  | firstRefused _ _ _ _ refused | nextRefused _ _ _ _ refused | failedRefused _ _ _ _ refused =>
    exact posted.snoc (fun took => absurd refused took) rfl rfl rfl rfl rfl
  | firstSent here _ room =>
    exact posted.sent here sameShape_sentLast (fewer_sent rfl) fun _ => transit_pos small room
  | nextSent here => exact posted.sent here sameShape_sentLast (fewer_sent rfl) (by simp)
  | failedSent here => exact posted.sent here sameShape_partSent (fewer_sent rfl) (by simp)
  | @lost s now j m _ _ here refused =>
    have first : Posted Cut w earlier ⟨lostState s j (s.receipts.receipts j).msg m, none, none⟩ :=
      posted.update .refl rfl rfl here sameShape_partLost (fun _ _ held => held) rfl rfl (by simp)
    exact first.snoc (fun took => absurd refused took) rfl rfl rfl rfl rfl
  | @resent s now j m _ _ here =>
    have first : Posted Cut w earlier ⟨lostState s j (s.receipts.receipts j).msg m, none, none⟩ :=
      posted.update .refl rfl rfl here sameShape_partLost (fun _ _ held => held) rfl rfl (by simp)
    exact first.sent (Function.update_self ..) sameShape_partSent (fewer_sent rfl) (by simp)
  | confirmed _ _ _ here stored =>
    exact posted.update (sameBytes_confirmed stored) rfl rfl here sameShape_partConfirmed fewer_confirmed rfl rfl
      (by simp)
  | completed here => exact posted.erase sameBytes_cleared rfl rfl rfl rfl

theorem Posted.step {op : Op} (posted : Posted Cut w earlier ⟨s, none, none⟩) (splits : Splits Cut w)
    (small : w.params.fragmentsAtATime < 2 ^ 32) (proper : Proper op) (ran : step w op s = .ok s') :
    Posted Cut w earlier ⟨s', none, none⟩ :=
  (step_chain proper ran).invariant (I := Posted Cut w earlier) (fun _ move before => before.move splits small move)
    posted

theorem Posted.alike {t : State} (posted : Posted Cut w earlier ⟨s, none, none⟩) (alike : Alike s t) :
    Posted Cut w earlier ⟨t, none, none⟩ := by
  have events : t.events = s.events := alike.events
  refine posted.still (sameBytes_outgoing alike.outgoing) ?_ (by rw [events]) ?_ alike.base
  · rw [alike.process]
    rfl
  · rw [alike.process]
    rfl

/-- What was taken stays so. -/
theorem posts_grow {op : Op} (proper : Proper op) (ran : step w op s = .ok s') :
    postsOf s earlier ⊆ postsOf s' earlier := by
  refine (step_chain proper ran).invariant (I := fun v => postsOf s earlier ⊆ postsOf v.s earlier) ?_
    (List.Subset.refl _)
  intro label v v' _ move before
  cases move with
  | opened => exact List.subset_cons_of_subset _ before
  | _ => exact before

theorem sameBytes_started (started : initializeBoth w { db } = .ok s) : SameBytes db s.db := by
  have adopted := adopted_of_started started
  refine ⟨fun friend id => (MessageIds.sameRecords_started started).recorded friend id |>.mpr,
    fun friend id d' held => ⟨d', ?_, rfl⟩⟩
  by_cases loose : ∃ p ∈ stmtSelectFragmentedOutboundPending db, loaded w p = none ∧ Restart.keyOf p = outboundKey friend id
  · obtain ⟨p, member, discarded, same⟩ := loose
    rw [← same, adopted.dropped p member discarded] at held
    cases held
  · rw [← adopted.kept _ fun p member discarded same => loose ⟨p, member, discarded, same⟩]
    exact held

/-- A new process over the store, its predecessors' messages on record. -/
theorem Posted.started {world : World} (posted : Posted Cut w earlier ⟨s, none, none⟩) (splits : Splits Cut world)
    (started : initializeBoth world { db := reopened s.db } = .ok s') :
    Posted Cut world (postsOf s earlier) ⟨s', none, none⟩ := by
  have loading := loading_started started
  have bytes : SameBytes (reopened s.db) s'.db := sameBytes_started started
  have posts : postsOf s' (postsOf s earlier) = postsOf s earlier := by
    rw [postsOf, loading.events, List.filterMap_nil, List.nil_append]
  refine ⟨?_, ?_, ?_, fun p member => ?_, fun friend id d' held => ?_, fun a m here => ?_, fun i call at_i => ?_⟩
  · obtain ⟨s₁, _, rfl⟩ := started_settled started
    exact markerMaxSizeEver_eq
  · simpa only [posts] using posted.named
  · simpa only [posts] using posted.bounded
  · have member : p ∈ postsOf s' (postsOf s earlier) := member
    rw [posts] at member
    exact bytes.recorded _ _ (posted.recorded p member)
  · obtain ⟨d, before, same⟩ := bytes.bytes friend id d' held
    change _ ∈ postsOf s' _
    rw [posts, ← same]
    exact posted.stored friend id d before
  · obtain ⟨p, selected, _, kept⟩ := loading.row here
    obtain ⟨row, data, there, same⟩ := mem_pending.mp selected
    obtain ⟨cuts, friend, id⟩ := cuts_of_loaded splits kept
    refine ⟨p.message, cuts, .inl ?_⟩
    have there : rows s.db (outboundKey p.friendNumber p.id) = ⟨some row, some data⟩ := there
    have stored := posted.stored p.friendNumber p.id data (by rw [there])
    have bytes : p.message = data.message := congrArg PendingSent.message same
    change _ ∈ postsOf s' _
    rw [posts, friend, id, bytes]
    exact stored
  · have at_i : s'.base[i]? = some call := at_i
    rw [loading.base] at at_i
    cases at_i

/-! ## All processes -/

/-- What the first process and its successors keep. -/
structure Sound (Cut : Nat → List UInt8 → List UInt8 → Prop) (l : Life) : Prop where
  splits : Splits Cut l.world
  small : l.world.params.fragmentsAtATime < 2 ^ 32
  posted : Posted Cut l.world l.earlierPosts ⟨l.state, none, none⟩
  earlier : ∀ friendNumber d, (friendNumber, d) ∈ l.earlierSent →
    ∃ p ∈ l.posts, p.friendNumber = friendNumber ∧ Cut p.id p.message d

variable {l l' : Life}

/-- Every fragment that went out is one of a message that was taken. -/
theorem Sound.sent (sound : Sound Cut l) {d : List UInt8} (member : (friendNumber, d) ∈ l.sent) :
    ∃ p ∈ l.posts, p.friendNumber = friendNumber ∧ Cut p.id p.message d := by
  rcases List.mem_append.mp member with before | now
  · exact sound.earlier friendNumber d before
  · obtain ⟨k, call, at_k, took, ⟨a, partNo, mine⟩, rfl, data⟩ := mem_accepted now
    rw [Nat.zero_add] at took
    obtain ⟨id, message, cut, taken | ⟨none, _⟩⟩ := sound.posted.traced k call at_k took a partNo mine d data
    · exact ⟨_, taken, rfl, cut⟩
    · cases none

theorem sound_founded (splits : Splits Cut l.world) (founded : Founded l) : Sound Cut l := by
  obtain ⟨world, state, small, started, rfl⟩ := founded
  obtain rfl := started_iff.mp started
  refine ⟨splits, small, ⟨?_, List.nodup_nil, ?_, ?_, ?_, ?_, ?_⟩, ?_⟩
  · exact markerMaxSizeEver_eq
  all_goals
    intros
    contradiction

theorem Sound.step {op : Op} (sound : Sound Cut l) (proper : Proper op) (ran : step l.world op l.state = .ok s') :
    Sound Cut { l with state := s' } := by
  refine ⟨sound.splits, sound.small, sound.posted.step sound.splits sound.small proper ran, fun friend d member => ?_⟩
  obtain ⟨p, taken, rest⟩ := sound.earlier friend d member
  exact ⟨p, posts_grow proper ran taken, rest⟩

/-- What the client answers are sends of the process. -/
theorem Sound.answers {ops : List Op} (sound : Sound Cut l) (proper : ∀ op ∈ ops, Proper op)
    (run : Run (Sender.step l.world) (fun _ _ => True) (· = l.state) ops s') : Sound Cut { l with state := s' } := by
  induction run with
  | nil same => exact same ▸ sound
  | @cons ops s₁ s₂ op _ _ ran ih =>
    have before := ih fun op member => proper op (List.mem_cons_of_mem _ member)
    exact before.step (proper op List.mem_cons_self) ran

theorem Sound.alike {t : State} (sound : Sound Cut l) (alike : Alike l.state t) : Sound Cut { l with state := t } := by
  have events : t.events = l.state.events := alike.events
  have posts : postsOf t l.earlierPosts = l.posts := by rw [postsOf, events, Life.posts, postsOf]
  refine ⟨sound.splits, sound.small, sound.posted.alike alike, fun friend d member => ?_⟩
  change ∃ p ∈ postsOf t l.earlierPosts, _
  rw [posts]
  exact sound.earlier friend d member

theorem Sound.received {c : Call} {answers : List ClientSend} {handed : Option Handed} (sound : Sound Cut l)
    (ran : receiveAnswering l.world c answers l.state = .ok (s', handed)) : Sound Cut { l with state := s' } := by
  obtain ⟨db₁, received, t, answered, alike, _⟩ := answered_after ran
  have first := sound.alike (alike_received received)
  have sent := first.answers (fun op member => ?_) (run_answers answered)
  · exact sent.alike alike
  · obtain ⟨c, _, rfl⟩ := List.mem_map.mp (List.mem_reverse.mp member)
    trivial

theorem Sound.act {a : Act} (sound : Sound Cut l) (sized : Sized a) (splits : ∀ world, a = .restart world → Splits Cut world)
    (ran : act a l = .ok l') : Sound Cut l' := by
  cases a with
  | own op =>
    obtain ⟨s', stepped, same⟩ := bind_ok.mp ran
    cases same
    exact sound.step sized stepped
  | incoming c answers =>
    obtain ⟨⟨s', handed⟩, received, same⟩ := bind_ok.mp ran
    cases same
    have kept := sound.received received
    exact ⟨kept.splits, kept.small, kept.posted, kept.earlier⟩
  | restart world =>
    obtain ⟨s', started, same⟩ := bind_ok.mp ran
    cases same
    have posted := sound.posted.started (splits world rfl) started
    refine ⟨splits world rfl, sized, posted, fun friend d member => ?_⟩
    obtain ⟨p, taken, rest⟩ := sound.sent member
    exact ⟨p, List.mem_append_right _ taken, rest⟩

end Defragmenter.Lives
