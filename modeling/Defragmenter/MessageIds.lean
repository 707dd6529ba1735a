import Defragmenter.FragmentType
import Defragmenter.Isolation
import Defragmenter.MarkerGrammar

/-! Which ids long messages get. An id is the clock's reading, or one more than
the last id where the clock does not show more. The last id is forgotten when
the process ends, and the rows in the stores of both sides are not: an id that
a process finds recorded is given again when the clock comes by it. -/
namespace Defragmenter.MessageIds
open Decimal Marker Database InboundStore OutboundStore Split Receipts Sender Moves Provenance Tracking
open Messages Restart Restored Receiver Isolation MarkerGrammar FragmentType Runs

/-- An outgoing message of this id to the friend is on record. -/
def Recorded (db : Db) (friendNumber id : Nat) : Prop :=
  (rows db (outboundKey friendNumber id)).metaRow.isSome = true

/-- A process and its predecessors on the same store. -/
structure Lineage where
  world : World
  state : State
  /-- The store as this process found it. -/
  found : Db := {}
  /-- The fragments of the predecessors that the base library took: the friend and the bytes. -/
  earlier : List (Nat × List UInt8) := []

/-- What the base library took in these calls, `i` having come before, for fragments. -/
def accepted (w : World) : Nat → List BaseCall → List (Nat × List UInt8)
  | _, [] => []
  | i, call :: rest =>
    if w.answer i ≠ 0 ∧ call.part.isSome = true then
      (call.data.map (call.friendNumber, ·)).toList ++ accepted w (i + 1) rest
    else accepted w (i + 1) rest

/-- All fragments that went out. -/
def Lineage.sent (c : Lineage) : List (Nat × List UInt8) := c.earlier ++ accepted c.world 0 c.state.base

def act : Act → Lineage → Except Fault Lineage
  | .op op, c => do
    let state ← step c.world op c.state
    pure { c with state }
  | .restart world, c => do
    let state ← initializeBoth world { db := reopened c.state.db }
    pure { world, state, found := reopened c.state.db, earlier := c.sent }

/-- A first process over an empty store. -/
def Founded (c : Lineage) : Prop :=
  ∃ world state, world.params.fragmentsAtATime < 2 ^ 32 ∧ Started world state ∧ c = { world, state }

/-- A receipt has a number, and `fragmentsAtATime` is an `unsigned`. -/
def Sized : Act → Prop
  | .op op => Proper op
  | .restart world => world.params.fragmentsAtATime < 2 ^ 32

instance : DecidablePred Sized := fun a =>
  match a with
  | .op op => inferInstanceAs (Decidable (Proper op))
  | .restart world => inferInstanceAs (Decidable (world.params.fragmentsAtATime < 2 ^ 32))

/-- The stores of a receiver that knows the sender by this number and gets from
it, of what it takes for fragments, only some of these. Others may send anything. -/
inductive Heard (limit : BlobLimit) (sent : List (List UInt8)) (sender : Nat) : Db → Prop where
  | fresh : Heard limit sent sender {}
  | heard {db db' : Db} {m : Incoming} {tm : Nat} {handed : Option Handed} : Heard limit sent sender db →
      (m.friendNumber = sender → isFragment m = true → m.message ∈ sent) →
      friendMessageCb limit db m tm = .ok (db', handed) → Heard limit sent sender db'

/-- The id that `generateMsgId` gives now is new for the friend: none of the
messages to it has it, the store can record it with any message whose row is within
its limit, and the friend knows nothing of it. -/
structure NewFor (c : Lineage) (friendNumber : Nat) : Prop where
  unused : ∀ id, Recorded c.state.db friendNumber id → (generateMsgId c.world c.state).1 ≠ id
  recordable : ∀ type message m, c.world.params.maxMessageLength < message.length →
    splitMessage c.state.markerMaxSizeEver message c.world.params.maxMessageLength
      (generateMsgId c.world c.state).1 = .ok m →
    (∀ receipt, outboundRowBytes friendNumber m.id message.length m.numParts receipt ≤ c.world.limit.val) →
    friendSendMessageLong c.world c.state friendNumber type message ≠ .error .abort
  unheard : ∀ limit sender db,
    Heard limit ((c.sent.filter (·.1 = friendNumber)).map (·.2)) sender db →
      rows db ⟨false, sender, (generateMsgId c.world c.state).1⟩ = {}

/-- The clock shows the id and is ahead of all ids of this process, or it is
not and the id is the one after the last. -/
def Repeats (w : World) (s : State) (id : Nat) : Prop :=
  if s.lastMsgId < w.clock s.ticks then w.clock s.ticks = id else s.lastMsgId + 1 = id

variable {w : World} {s s' : State} {v v' : View} {label : Label} {m m' built : MsgOutbound}
  {friendNumber id : Nat} {db db' : Db}

theorem repeats_iff : Repeats w s id ↔ (generateMsgId w s).1 = id := by
  have unfolded : (generateMsgId w s).1 = max (w.clock s.ticks) (s.lastMsgId + 1) := rfl
  rw [unfolded, Repeats]
  split
  · rw [Nat.max_eq_left (by omega)]
  · rw [Nat.max_eq_right (by omega)]

/-! ## The id in a fragment -/

/-- Bytes that begin like a marker with this id. -/
def MarkedWith (id : Nat) (bytes : List UInt8) : Prop :=
  ∃ rest, bytes = markerChar ++ (decimal id ++ bar :: rest)

theorem bar_notMem_id (t : MarkerText) : bar ∉ t.id := by
  intro member
  have digit := t.idDigits bar member
  exact absurd digit (by decide)

theorem id_of_marked {bytes : List UInt8} {beyond : Memory} {fields : Fields}
    (marked : MarkedWith id bytes) (parsed : markerParse (memoryOf bytes beyond) bytes.length = some fields) :
    fields.id = id := by
  obtain ⟨rest, rfl⟩ := marked
  obtain ⟨t, shown, rfl⟩ := markerParse_iff.mp parsed
  have text : ∃ rest', t.id ++ bar :: fieldsText t.fields ++ rest' = decimal id ++ bar :: rest ∨
      t.id ++ bar :: fieldsText t.fields = decimal id ++ bar :: (rest ++ rest') := by
    rcases (showsMarker_iff.mp shown).2 with ⟨payload, same⟩ | same
    · refine ⟨payload, .inl ?_⟩
      rw [MarkerText.bytes, List.append_assoc, List.append_cancel_left_eq] at same
      exact same.symm
    · refine ⟨[beyond 0], .inr ?_⟩
      rw [MarkerText.bytes, List.append_assoc, List.append_cancel_left_eq] at same
      simpa using same
  have own : t.id = decimal id := by
    obtain ⟨rest', same | same⟩ := text
    · rw [List.append_assoc, List.cons_append] at same
      exact (field_inj (bar_notMem_id t) (bar_notMem_decimal id) same).1
    · exact (field_inj (bar_notMem_id t) (bar_notMem_decimal id) same).1
  exact (congrArg (digitsValue 0) own).trans (digitsValue_decimal id)

private theorem splitLoop_marked {size numParts length fuel partNo off len : Nat} {bytes : List UInt8}
    {f : Fragment} (member : f ∈ splitLoop size id numParts length fuel partNo off len bytes) :
    ∀ d, f.data = some d → MarkedWith id d := by
  induction fuel generalizing partNo off len bytes with
  | zero => simp [splitLoop] at member
  | succ fuel ih =>
    rw [splitLoop] at member
    split at member
    · simp at member
    · rcases List.mem_cons.mp member with rfl | later
      · intro d same
        cases same
        exact ⟨_, by simp only [markerPrint, List.append_assoc, List.cons_append]; rfl⟩
      · exact ih later

/-- Whatever has bytes left begins with the id. -/
def Marked (m : MsgOutbound) : Prop := ∀ i d, (part m i).data = some d → MarkedWith m.id d

theorem marked_of_split {big maxLength : Nat} {message : List UInt8}
    (split : splitMessage big message maxLength id = .ok m) : Marked m := by
  have own := (unsent_of_split split).id_eq
  intro i d held
  rw [own]
  unfold splitMessage at split
  dsimp only at split
  split at split
  · cases split
  · split at split
    · cases split
    · cases split
      rw [Moves.part, List.getD_eq_getElem?_getD] at held
      cases at_i : (List.takeD _ _ _)[i]? with
      | none =>
        rw [at_i] at held
        cases held
      | some f =>
        rw [at_i] at held
        rcases mem_takeD (List.mem_of_getElem? at_i) with built | rfl
        · exact splitLoop_marked built d held
        · cases held

/-- The bytes that are left are those that were there. -/
def Fewer (m m' : MsgOutbound) : Prop := ∀ i d, (part m' i).data = some d → (part m i).data = some d

theorem Fewer.marked (fewer : Fewer m m') (same : m'.id = m.id) (marked : Marked m) : Marked m' :=
  fun i d held => same ▸ marked i d (fewer i d held)

/-- One fragment changes, and its bytes stay or go. -/
theorem fewer_modify {i : Nat} {change : Fragment → Fragment} (fragments : m'.fragments = m.fragments.modify i change)
    (fewer : ∀ f d, (change f).data = some d → f.data = some d) : Fewer m m' := by
  intro k d held
  rw [Moves.part, fragments, List.getD_eq_getElem?_getD, List.getElem?_modify] at held
  rw [Moves.part, List.getD_eq_getElem?_getD]
  cases at_k : m.fragments[k]? with
  | none =>
    rw [at_k] at held
    cases held
  | some f =>
    rw [at_k] at held
    simp only [Option.map_eq_map, Option.map_some, Option.getD_some] at held
    split at held
    · exact fewer f d held
    · exact held

theorem fewer_sent {i receipt : Nat} (fragments : m'.fragments = (partSent m i receipt).fragments) : Fewer m m' :=
  fewer_modify fragments fun _ _ held => held

theorem fewer_confirmed {partNo : Nat} : Fewer m (partConfirmed m partNo) :=
  fewer_modify rfl fun _ _ held => by cases held

theorem marked_of_loaded {p : PendingSent} (found : loaded w p = some m) : Marked m := by
  unfold loaded at found
  cases split : splitMessage 0 p.message w.params.maxMessageLength p.id with
  | error fault =>
    rw [split] at found
    cases found
  | ok built =>
    rw [split] at found
    change resume p built = some m at found
    unfold resume at found
    dsimp only at found
    split at found
    · cases found
      refine Fewer.marked (m := built) (fun i d held => ?_) rfl (marked_of_split split)
      simp only [Moves.part, List.getD_eq_getElem?_getD, List.getElem?_zipWith] at held ⊢
      cases built_i : built.fragments[i]? with
      | none =>
        rw [built_i] at held
        cases held
      | some f =>
        rw [built_i] at held
        cases stored : p.confirmed[i]? with
        | none =>
          rw [stored] at held
          cases held
        | some b =>
          rw [stored] at held
          simp only [restoreConfirmed, Option.getD_some] at held
          split at held
          · exact held
          · cases held
    · cases found

/-! ## What one process keeps -/

/-- The message `friend_send_message_long` is building stands here. -/
def Forms (v : View) (a : Nat) : Prop := ∃ bytes, v.forming = some (a, bytes)

/-- The fragment is one of a message on record, or of the one that is being
built, of which then a part is on its way. -/
def Traced (v : View) (a friendNumber : Nat) (d : List UInt8) : Prop :=
  ∃ id, MarkedWith id d ∧ (Recorded v.s.db friendNumber id ∨
    Forms v a ∧ ∃ m, v.s.heap a = some m ∧ m.friendNumber = friendNumber ∧ m.id = id ∧ 0 < m.numTransit)

/-- Ids in the store are those found there and some up to the last one given. -/
structure Numbered (w : World) (found : Db) (v : View) : Prop where
  kept : ∀ friendNumber id, Recorded found friendNumber id → Recorded v.s.db friendNumber id
  counted : ∀ friendNumber id, Recorded v.s.db friendNumber id →
    Recorded found friendNumber id ∨ id ≤ v.s.lastMsgId
  paired : ∀ key : Key, key.outbound = true → (rows v.s.db key).dataRow ≠ none →
    (rows v.s.db key).metaRow.isSome = true
  known : ∀ a m, v.s.heap a = some m → Recorded v.s.db m.friendNumber m.id ∨ Forms v a ∧ m.id ≤ v.s.lastMsgId
  marked : ∀ a m, v.s.heap a = some m → Marked m
  traced : ∀ i call, v.s.base[i]? = some call → w.answer i ≠ 0 → ∀ a partNo, call.part = some (a, partNo) →
    ∀ d, call.data = some d → Traced v a call.friendNumber d

variable {found : Db} {msg a : Nat} {taken taken' : Option Nat} {forming : Option (Nat × List UInt8)}

/-- A store with the same records. -/
structure SameRecords (db db' : Db) : Prop where
  recorded : ∀ friendNumber id, Recorded db' friendNumber id ↔ Recorded db friendNumber id
  fewer : ∀ key : Key, key.outbound = true → (rows db' key).dataRow ≠ none → (rows db key).dataRow ≠ none

theorem SameRecords.refl : SameRecords db db := ⟨fun _ _ => .rfl, fun _ _ held => held⟩

theorem sameRecords_confirmed {partNo tm : Nat} (ran : dbOutboundPartConfirmed db friendNumber id partNo tm = .ok db') :
    SameRecords db db' :=
  ⟨fun _ _ => by rw [Recorded, metaRow_of_confirmed ran, Recorded],
    fun _ _ held => dataRow_of_confirmed ran held⟩

theorem sameRecords_cleared : SameRecords db (dbClearOutboundPending db friendNumber id) := by
  refine ⟨fun friend id' => ?_, fun key _ held absent => held ?_⟩
  · rw [Recorded, rows_cleared, Recorded]
    split <;> rfl
  · rw [rows_cleared]
    split
    · rfl
    · exact absent

/-- The messages change where they stand, and the store keeps its records. -/
theorem Numbered.frame (numbered : Numbered w found ⟨s, taken, forming⟩) (records : SameRecords s.db s'.db)
    (last : s'.lastMsgId = s.lastMsgId)
    (heap : ∀ a m', s'.heap a = some m' → ∃ m, s.heap a = some m ∧ SameShape m m' ∧ Fewer m m')
    (base : s'.base = s.base)
    (moving : ∀ a m, s.heap a = some m → 0 < m.numTransit → (∃ bytes, forming = some (a, bytes)) →
      ∃ m', s'.heap a = some m' ∧ SameShape m m' ∧ 0 < m'.numTransit) :
    Numbered w found ⟨s', taken', forming⟩ where
  kept friendNumber id held := (records.recorded friendNumber id).mpr (numbered.kept friendNumber id held)
  counted friendNumber id held := by
    change _ ∨ id ≤ s'.lastMsgId
    rw [last]
    exact numbered.counted friendNumber id ((records.recorded friendNumber id).mp held)
  paired key outbound held := by
    have before := numbered.paired key outbound (records.fewer key outbound held)
    have same := records.recorded key.friendId key.fragsId
    have named : outboundKey key.friendId key.fragsId = key := by rw [outboundKey, ← outbound]
    rw [Recorded, Recorded, named] at same
    exact same.mpr before
  known a m' here := by
    obtain ⟨m, before, shape, _⟩ := heap a m' here
    change Recorded s'.db _ _ ∨ _ ∧ _ ≤ s'.lastMsgId
    rw [records.recorded, last, shape.friendNumber, shape.id]
    exact numbered.known a m before
  marked a m' here := by
    obtain ⟨m, before, shape, fewer⟩ := heap a m' here
    exact fewer.marked shape.id (numbered.marked a m before)
  traced i call at_i took a partNo mine d held := by
    change s'.base[i]? = some call at at_i
    rw [base] at at_i
    obtain ⟨id, marked, there⟩ := numbered.traced i call at_i took a partNo mine d held
    refine ⟨id, marked, ?_⟩
    rcases there with recorded | ⟨forms, m, here, friend, named, moves⟩
    · exact .inl ((records.recorded _ _).mpr recorded)
    · obtain ⟨m', here', shape, moves'⟩ := moving a m here moves forms
      exact .inr ⟨forms, m', here', shape.friendNumber.trans friend, shape.id.trans named, moves'⟩

theorem Numbered.update (numbered : Numbered w found ⟨s, taken, forming⟩) (records : SameRecords s.db s'.db)
    (last : s'.lastMsgId = s.lastMsgId) (here : s.heap msg = some m) (shape : SameShape m m') (fewer : Fewer m m')
    (heap : s'.heap = Function.update s.heap msg (some m')) (base : s'.base = s.base)
    (moving : (∃ bytes, forming = some (msg, bytes)) → 0 < m'.numTransit) :
    Numbered w found ⟨s', taken', forming⟩ := by
  refine numbered.frame records last (fun a m₁ after => ?_) base fun a m₁ before moves forms => ?_
  · rw [heap] at after
    obtain ⟨mine, same⟩ | ⟨_, before⟩ := heap_update_iff.mp after
    · cases same
      exact ⟨m, mine ▸ here, shape, fewer⟩
    · exact ⟨m₁, before, ⟨rfl, rfl, rfl, rfl⟩, fun _ _ held => held⟩
  · by_cases mine : a = msg
    · subst mine
      cases here.symm.trans before
      exact ⟨m', heap ▸ Function.update_self .., shape, moving forms⟩
    · exact ⟨m₁, by rw [heap, Function.update_of_ne mine, before], ⟨rfl, rfl, rfl, rfl⟩, moves⟩

/-- A message goes that is not being built. -/
theorem Numbered.erase (numbered : Numbered w found ⟨s, taken, forming⟩) (records : SameRecords s.db s'.db)
    (last : s'.lastMsgId = s.lastMsgId) (heap : s'.heap = Function.update s.heap msg none)
    (base : s'.base = s.base) (done : ∀ bytes, forming ≠ some (msg, bytes)) :
    Numbered w found ⟨s', taken', forming⟩ := by
  refine numbered.frame records last (fun a m after => ?_) base fun a m before moves forms => ?_
  · rw [heap] at after
    obtain ⟨_, none⟩ | ⟨_, before⟩ := heap_update_iff.mp after
    · cases none
    · exact ⟨m, before, ⟨rfl, rfl, rfl, rfl⟩, fun _ _ held => held⟩
  · have other : a ≠ msg := by
      rintro rfl
      obtain ⟨bytes, building⟩ := forms
      exact done bytes building
    exact ⟨m, by rw [heap, Function.update_of_ne other, before], ⟨rfl, rfl, rfl, rfl⟩, moves⟩

/-- One more call of the base library. -/
theorem Numbered.snoc {call : BaseCall} (numbered : Numbered w found ⟨s, taken, forming⟩)
    (new : w.answer s.base.length ≠ 0 → ∀ a partNo, call.part = some (a, partNo) → ∀ d, call.data = some d →
      Traced ⟨s, taken, forming⟩ a call.friendNumber d)
    (db : s'.db = s.db) (last : s'.lastMsgId = s.lastMsgId) (heap : s'.heap = s.heap)
    (base : s'.base = s.base ++ [call]) : Numbered w found ⟨s', taken', forming⟩ := by
  obtain ⟨kept, counted, paired, known, marked, traced⟩ := numbered
  refine ⟨?_, ?_, ?_, ?_, ?_, fun i other at_i took a partNo mine d held => ?_⟩
  all_goals simp only [Forms, Traced, db, last, heap] at *
  · exact kept
  · exact counted
  · exact paired
  · exact known
  · exact marked
  · rw [base] at at_i
    rcases getElem?_snoc at_i with before | ⟨rfl, rfl⟩
    · exact traced i other before took a partNo mine d held
    · exact new took a partNo mine d held

/-- A fragment goes out for a message that is on record or being built. -/
theorem Numbered.sent {i : Nat} (numbered : Numbered w found ⟨s, taken, forming⟩)
    (here : s.heap msg = some m) (shape : SameShape m m') (fewer : Fewer m m')
    (moving : (∃ bytes, forming = some (msg, bytes)) → 0 < m'.numTransit) :
    Numbered w found ⟨sentState w s msg m i m', taken', forming⟩ := by
  have first : Numbered w found ⟨{ s with heap := Function.update s.heap msg (some m') }, taken, forming⟩ :=
    numbered.update .refl rfl here shape fewer rfl rfl moving
  refine first.snoc (fun _ a partNo mine d held => ?_) rfl rfl rfl rfl
  cases mine
  refine ⟨m.id, numbered.marked msg m here i d held, ?_⟩
  rcases numbered.known msg m here with recorded | ⟨forms, _⟩
  · exact .inl recorded
  · exact .inr ⟨forms, m', Function.update_self .., shape.friendNumber, shape.id, moving forms⟩

theorem transit_pos {n : Nat} (small : w.params.fragmentsAtATime < 2 ^ 32)
    (room : n < w.params.fragmentsAtATime) : 0 < (n + 1) % 2 ^ 32 := by
  rw [Nat.mod_eq_of_lt (by omega)]
  exact Nat.succ_pos n

theorem Numbered.begun {message : List UInt8} (numbered : Numbered w found ⟨s, none, none⟩)
    (split : splitMessage s.markerMaxSizeEver message w.params.maxMessageLength
      (max (w.clock s.ticks) (s.lastMsgId + 1)) = .ok m) :
    Numbered w found ⟨begunState w s friendNumber m, none, some (s.fresh, message)⟩ where
  kept := numbered.kept
  counted friend id held := by
    have old := numbered.counted friend id held
    have grows : s.lastMsgId ≤ (begunState w s friendNumber m).lastMsgId :=
      Nat.le_trans (Nat.le_succ _) (Nat.le_max_right ..)
    exact old.imp_right fun below => Nat.le_trans below grows
  paired := numbered.paired
  known a m' here := by
    obtain ⟨mine, same⟩ | ⟨_, before⟩ := heap_update_iff.mp here
    · cases same
      have own : m.id = _ := (unsent_of_split split).id_eq
      exact .inr ⟨⟨message, by rw [mine]⟩, Nat.le_of_eq own⟩
    · refine (numbered.known a m' before).imp_right ?_
      rintro ⟨⟨_, none⟩, _⟩
      cases none
  marked a m' here := by
    obtain ⟨_, same⟩ | ⟨_, before⟩ := heap_update_iff.mp here
    · cases same
      have built : Marked m := marked_of_split split
      exact fun i d held => built i d held
    · exact numbered.marked a m' before
  traced i call at_i took a partNo mine d held := by
    obtain ⟨id, marked, recorded | ⟨⟨_, none⟩, _⟩⟩ := numbered.traced i call at_i took a partNo mine d held
    · exact ⟨id, marked, .inl recorded⟩
    · cases none

theorem recorded_inserted {limit : BlobLimit} {tm numParts receipt : Nat} {type : Int} {data : List UInt8}
    (ran : dbInsertOutboundMessage limit db friendNumber type id tm numParts data receipt = .ok db')
    {friend id' : Nat} : Recorded db' friend id' ↔ Recorded db friend id' ∨ friend = friendNumber ∧ id' = id := by
  obtain ⟨own, others⟩ := rows_inserted ran
  by_cases same : outboundKey friend id' = outboundKey friendNumber id
  · have parts : friend = friendNumber ∧ id' = id := ⟨congrArg Key.friendId same, congrArg Key.fragsId same⟩
    rw [Recorded, same, own]
    exact ⟨fun _ => .inr parts, fun _ => rfl⟩
  · rw [Recorded, others _ same, Recorded]
    constructor
    · exact .inl
    · rintro (before | ⟨rfl, rfl⟩)
      · exact before
      · exact absurd rfl same

theorem Numbered.opened {receipt : Nat} {type : Int} {message : List UInt8}
    (numbered : Numbered w found ⟨s, none, some (msg, message)⟩) (here : s.heap msg = some m)
    (stored : dbInsertOutboundMessage w.limit s.db m.friendNumber type m.id m.id m.numParts message receipt =
      .ok db) : Numbered w found ⟨openedState s msg m type message receipt db, none, none⟩ where
  kept friend id held := (recorded_inserted stored).mpr (.inl (numbered.kept friend id held))
  counted friend id held := by
    rcases (recorded_inserted stored).mp held with before | ⟨rfl, rfl⟩
    · exact numbered.counted friend id before
    · rcases numbered.known msg m here with recorded | ⟨_, given⟩
      · exact numbered.counted _ _ recorded
      · exact .inr given
  paired key outbound held := by
    obtain ⟨own, others⟩ := rows_inserted stored
    change (rows db key).metaRow.isSome = true
    by_cases same : key = outboundKey m.friendNumber m.id
    · rw [same, own]
      rfl
    · have held : (rows db key).dataRow ≠ none := held
      rw [others key same] at held ⊢
      exact numbered.paired key outbound held
  known a m' after := by
    refine .inl ((recorded_inserted stored).mpr ?_)
    obtain ⟨_, same⟩ | ⟨other, before⟩ := heap_update_iff.mp after
    · cases same
      exact .inr ⟨rfl, rfl⟩
    · rcases numbered.known a m' before with recorded | ⟨⟨_, forms⟩, _⟩
      · exact .inl recorded
      · cases forms
        exact absurd rfl other
  marked a m' after := by
    obtain ⟨_, same⟩ | ⟨_, before⟩ := heap_update_iff.mp after
    · cases same
      exact numbered.marked msg m here
    · exact numbered.marked a m' before
  traced i call at_i took a partNo mine d held := by
    obtain ⟨id, marked, there⟩ := numbered.traced i call at_i took a partNo mine d held
    refine ⟨id, marked, .inl ((recorded_inserted stored).mpr ?_)⟩
    rcases there with recorded | ⟨⟨_, forms⟩, m', before, friend, named, _⟩
    · exact .inl recorded
    · cases forms
      cases here.symm.trans before
      exact .inr ⟨friend.symm, named.symm⟩

/-- No part was taken, so nothing that went out was the message's. -/
theorem Numbered.dropped {message : List UInt8} (numbered : Numbered w found ⟨s, none, some (msg, message)⟩)
    (here : s.heap msg = some m) (none_ : m.numTransit = 0) :
    Numbered w found ⟨msgOutboundDelete s msg, none, none⟩ where
  kept := numbered.kept
  counted := numbered.counted
  paired := numbered.paired
  known a m' after := by
    obtain ⟨_, none⟩ | ⟨other, before⟩ := heap_update_iff.mp after
    · cases none
    · refine (numbered.known a m' before).imp_right ?_
      rintro ⟨⟨_, forms⟩, _⟩
      cases forms
      exact absurd rfl other
  marked a m' after := by
    obtain ⟨_, none⟩ | ⟨_, before⟩ := heap_update_iff.mp after
    · cases none
    · exact numbered.marked a m' before
  traced i call at_i took a partNo mine d held := by
    obtain ⟨id, marked, there⟩ := numbered.traced i call at_i took a partNo mine d held
    rcases there with recorded | ⟨⟨_, forms⟩, m', before, _, _, moves⟩
    · exact ⟨id, marked, .inl recorded⟩
    · cases forms
      cases here.symm.trans before
      omega

theorem Numbered.move (numbered : Numbered w found v) (small : w.params.fragmentsAtATime < 2 ^ 32)
    (move : Move w label v v') : Numbered w found v' := by
  cases move with
  | idle | passed | cleared =>
    exact numbered.frame .refl rfl (fun a m here => ⟨m, here, ⟨rfl, rfl, rfl, rfl⟩, fun _ _ held => held⟩) rfl
      fun a m here moves _ => ⟨m, here, ⟨rfl, rfl, rfl, rfl⟩, moves⟩
  | short none =>
    refine numbered.snoc (fun _ a partNo mine => ?_) rfl rfl rfl rfl
    rw [none] at mine
    cases mine
  | begun long split => exact numbered.begun split
  | opened here _ _ _ stored => exact numbered.opened here stored
  | dropped here none => exact numbered.dropped here none
  | firstRefused _ _ _ _ refused | nextRefused _ _ _ _ refused | failedRefused _ _ _ _ refused =>
    exact numbered.snoc (fun took => absurd refused took) rfl rfl rfl rfl
  | firstSent here _ room =>
    exact numbered.sent here sameShape_sentLast (fewer_sent rfl) fun _ => transit_pos small room
  | nextSent here =>
    exact numbered.sent here sameShape_sentLast (fewer_sent rfl) (by simp)
  | failedSent here =>
    exact numbered.sent here sameShape_partSent (fewer_sent rfl) (by simp)
  | @lost s now j m _ _ here refused =>
    have first : Numbered w found ⟨lostState s j (s.receipts.receipts j).msg m, none, none⟩ :=
      numbered.update .refl rfl here sameShape_partLost (fun _ _ held => held) rfl rfl (by simp)
    exact first.snoc (fun took => absurd refused took) rfl rfl rfl rfl
  | @resent s now j m _ _ here =>
    have first : Numbered w found ⟨lostState s j (s.receipts.receipts j).msg m, none, none⟩ :=
      numbered.update .refl rfl here sameShape_partLost (fun _ _ held => held) rfl rfl (by simp)
    exact first.sent (Function.update_self ..) sameShape_partSent (fewer_sent rfl) (by simp)
  | confirmed _ _ _ here stored =>
    exact numbered.update (sameRecords_confirmed stored) rfl here sameShape_partConfirmed fewer_confirmed rfl rfl
      (by simp)
  | completed here =>
    exact numbered.erase sameRecords_cleared rfl rfl rfl (by simp)

/-! ## All processes -/

/-- What the first process and its successors keep. -/
structure Sound (c : Lineage) : Prop where
  small : c.world.params.fragmentsAtATime < 2 ^ 32
  numbered : Numbered c.world c.found ⟨c.state, none, none⟩
  earlier : ∀ friendNumber d, (friendNumber, d) ∈ c.earlier →
    ∃ id, MarkedWith id d ∧ Recorded c.state.db friendNumber id

variable {c c' : Lineage}

theorem mem_accepted {friendNumber : Nat} {d : List UInt8} {calls : List BaseCall} : ∀ {i : Nat},
    (friendNumber, d) ∈ accepted w i calls → ∃ k call, calls[k]? = some call ∧ w.answer (i + k) ≠ 0 ∧
      (∃ a partNo, call.part = some (a, partNo)) ∧ call.friendNumber = friendNumber ∧ call.data = some d := by
  induction calls with
  | nil => simp [accepted]
  | cons call rest ih =>
    intro i member
    rw [accepted] at member
    have later : (friendNumber, d) ∈ accepted w (i + 1) rest → ∃ k other, (call :: rest)[k]? = some other ∧
        w.answer (i + k) ≠ 0 ∧ (∃ a partNo, other.part = some (a, partNo)) ∧
        other.friendNumber = friendNumber ∧ other.data = some d := by
      intro inside
      obtain ⟨k, other, at_k, took, found⟩ := ih inside
      exact ⟨k + 1, other, at_k, by rwa [show i + (k + 1) = i + 1 + k by omega], found⟩
    split at member
    · rename_i took
      rcases List.mem_append.mp member with here | inside
      · rw [Option.mem_toList, Option.map_eq_some_iff] at here
        obtain ⟨d', data, same⟩ := here
        cases same
        obtain ⟨⟨a, partNo⟩, mine⟩ := Option.isSome_iff_exists.mp took.2
        exact ⟨0, call, rfl, took.1, ⟨a, partNo, mine⟩, rfl, data⟩
      · exact later inside
    · exact later member

/-- Every fragment that went out carries a recorded id. -/
theorem Sound.sent (sound : Sound c) {friendNumber : Nat} {d : List UInt8} (member : (friendNumber, d) ∈ c.sent) :
    ∃ id, MarkedWith id d ∧ Recorded c.state.db friendNumber id := by
  rcases List.mem_append.mp member with before | now
  · exact sound.earlier friendNumber d before
  · obtain ⟨k, call, at_k, took, ⟨a, partNo, mine⟩, rfl, data⟩ := mem_accepted now
    rw [Nat.zero_add] at took
    obtain ⟨id, marked, recorded | ⟨⟨_, none⟩, _⟩⟩ := sound.numbered.traced k call at_k took a partNo mine d data
    · exact ⟨id, marked, recorded⟩
    · cases none

/-- Loading the rows neither makes nor deletes a record. -/
theorem sameRecords_settled (ps : List PendingSent) : ∀ {s : State},
    SameRecords s.db (ps.foldl (fun s p => settle s p (loaded w p)) s).db := by
  induction ps with
  | nil => exact .refl
  | cons p ps ih =>
    intro s
    have first : SameRecords s.db (settle s p (loaded w p)).db := by
      cases loaded w p with
      | none => exact sameRecords_cleared
      | some m => exact .refl
    have rest := @ih (settle s p (loaded w p))
    exact ⟨fun friend id => (rest.recorded friend id).trans (first.recorded friend id),
      fun key outbound held => first.fewer key outbound (rest.fewer key outbound held)⟩

theorem sameRecords_started (started : initializeBoth w { db } = .ok s) : SameRecords db s.db := by
  obtain ⟨s₁, settled, rfl⟩ := started_settled started
  have all := @sameRecords_settled w (stmtSelectFragmentedOutboundPending db) (loadingState w db)
  rw [← settled] at all
  exact ⟨all.recorded, all.fewer⟩

theorem Numbered.started (started : initializeBoth w { db } = .ok s)
    (paired : ∀ key : Key, key.outbound = true → (rows db key).dataRow ≠ none → (rows db key).metaRow.isSome = true) :
    Numbered w db ⟨s, none, none⟩ := by
  have records := sameRecords_started started
  have loading := loading_started started
  refine ⟨fun friend id => (records.recorded friend id).mpr, fun friend id held => .inl ((records.recorded friend id).mp held),
    fun key outbound held => ?_, fun a m here => .inl ?_, fun a m here => ?_, fun i call at_i => ?_⟩
  · have before := paired key outbound (records.fewer key outbound held)
    have same := records.recorded key.friendId key.fragsId
    have named : outboundKey key.friendId key.fragsId = key := by rw [outboundKey, ← outbound]
    rw [Recorded, Recorded, named] at same
    exact same.mpr before
  · obtain ⟨p, selected, _, kept⟩ := loading.row here
    obtain ⟨row, data, there, _⟩ := mem_pending.mp selected
    obtain ⟨friend, id⟩ := loaded_named kept
    rw [friend, id]
    refine (records.recorded _ _).mpr ?_
    have there : rows db (outboundKey p.friendNumber p.id) = ⟨some row, some data⟩ := there
    rw [Recorded, there]
    rfl
  · obtain ⟨p, _, _, kept⟩ := loading.row here
    exact marked_of_loaded kept
  · have at_i : s.base[i]? = some call := at_i
    rw [loading.base] at at_i
    cases at_i

/-- A store is what this process makes of itself. -/
theorem Numbered.rebase (numbered : Numbered w found ⟨s, none, none⟩) : Numbered w s.db ⟨s, none, none⟩ where
  kept _ _ held := held
  counted _ _ held := .inl held
  paired := numbered.paired
  known := numbered.known
  marked := numbered.marked
  traced := numbered.traced

theorem Numbered.step {op : Op} (numbered : Numbered w found ⟨s, none, none⟩)
    (small : w.params.fragmentsAtATime < 2 ^ 32) (proper : Proper op) (ran : step w op s = .ok s') :
    Numbered w found ⟨s', none, none⟩ :=
  (step_chain proper ran).invariant (I := Numbered w found) (fun _ move before => before.move small move) numbered

theorem sound_founded (founded : Founded c) : Sound c := by
  obtain ⟨world, state, small, started, rfl⟩ := founded
  refine ⟨small, Numbered.started started fun key _ held => absurd rfl held, fun _ _ member => ?_⟩
  cases member

theorem Sound.act {a : Act} (sound : Sound c) (sized : Sized a) (ran : act a c = .ok c') : Sound c' := by
  cases a with
  | op op =>
    obtain ⟨s', stepped, same⟩ := bind_ok.mp ran
    cases same
    have grown := sound.numbered.rebase.step sound.small sized stepped
    refine ⟨sound.small, sound.numbered.step sound.small sized stepped, fun friend d member => ?_⟩
    obtain ⟨id, marked, recorded⟩ := sound.earlier friend d member
    exact ⟨id, marked, grown.kept friend id recorded⟩
  | restart world =>
    obtain ⟨s', started, same⟩ := bind_ok.mp ran
    cases same
    refine ⟨sized, Numbered.started started sound.numbered.paired, fun friend d member => ?_⟩
    obtain ⟨id, marked, recorded⟩ := sound.sent member
    exact ⟨id, marked, ((sameRecords_started started).recorded friend id).mpr recorded⟩

/-! ## A new id -/

/-- Of an id that no fragment carried the receiver has no rows. -/
theorem rows_unheard {limit : BlobLimit} {sent : List (List UInt8)} {sender : Nat}
    (heard : Heard limit sent sender db) (others : ∀ d ∈ sent, ∃ other, MarkedWith other d ∧ other ≠ id) :
    rows db ⟨false, sender, id⟩ = {} := by
  induction heard with
  | fresh => rfl
  | @heard db db' m tm handed _ among ran ih =>
    cases parsed : markerParse m.memory m.message.length with
    | none =>
      rw [friendMessageCb_other parsed] at ran
      cases ran
      exact ih
    | some fields =>
      have different : (⟨false, sender, id⟩ : Key) ≠ keyOf m fields := by
        intro same
        have friend : m.friendNumber = sender := (congrArg Key.friendId same).symm
        have fragment : isFragment m = true := by
          rw [isFragment, markerExists_eq, parsed]
          rfl
        obtain ⟨other, marked, otherId⟩ := others m.message (among friend fragment)
        exact otherId ((id_of_marked marked parsed).symm.trans (congrArg Key.fragsId same).symm)
      exact (agreeOff_friendMessageCb parsed ran _ different).trans ih

theorem splitMessage_noAbort {big maxLength : Nat} {message : List UInt8} :
    splitMessage big message maxLength id ≠ .error .abort := by
  unfold splitMessage
  dsimp only
  split
  · exact fun same => Fault.noConfusion (Except.error.inj same)
  · split
    · exact fun same => Fault.noConfusion (Except.error.inj same)
    · simp

theorem avoidPending_noAbort {params : Params} {pending : List Nat} {fuel : Nat} : ∀ {lastReceipt : Nat},
    avoidPending params pending fuel lastReceipt ≠ .error .abort := by
  induction fuel with
  | zero => exact fun same => Fault.noConfusion (Except.error.inj same)
  | succ fuel ih =>
    intro lastReceipt
    rw [avoidPending]
    split
    · exact ih
    · simp

/-- A message with a new id can be recorded. -/
theorem recordable_of_unused {type : Int} {message : List UInt8} (numbered : Numbered w found ⟨s, none, none⟩)
    (unused : ¬ Recorded s.db friendNumber (generateMsgId w s).1)
    (long : w.params.maxMessageLength < message.length)
    (split : splitMessage s.markerMaxSizeEver message w.params.maxMessageLength (generateMsgId w s).1 = .ok m)
    (fits : ∀ receipt, outboundRowBytes friendNumber m.id message.length m.numParts receipt ≤ w.limit.val) :
    friendSendMessageLong w s friendNumber type message ≠ .error .abort := by
  intro failed
  rcases bind_error.mp failed with failed | ⟨m', split', failed⟩
  · exact splitMessage_noAbort failed
  cases split.symm.trans split'
  have unsent := unsent_of_split split
  obtain ⟨s₁, m₁, went, here₁, store, shape, _⟩ := @Anchoring.first_window w s m friendNumber _ message split
  rcases bind_error.mp failed with failed | ⟨s₂, went₂, failed⟩
  · cases went.symm.trans failed
  cases went.symm.trans went₂
  rcases bind_error.mp failed with failed | ⟨m₂, found₂, failed⟩
  · cases (msgAt_ok.mpr here₁).symm.trans failed
  cases here₁.symm.trans (msgAt_ok.mp found₂)
  split at failed
  · rcases bind_error.mp failed with failed | ⟨⟨receipt, s₃⟩, numbers, failed⟩
    · rcases bind_error.mp failed with failed | ⟨_, _, failed⟩
      · exact avoidPending_noAbort failed
      · cases failed
    obtain ⟨r, _, numbers⟩ := bind_ok.mp numbers
    cases numbers
    rcases bind_error.mp failed with failed | ⟨_, _, failed⟩
    · rcases bind_error.mp failed with failed | ⟨_, _, failed⟩
      · have own : m₁.id = (generateMsgId w s).1 := shape.id.trans unsent.id_eq
        have metaRow : (rows s.db (outboundKey friendNumber m₁.id)).metaRow = none := by
          rw [own]
          exact Option.not_isSome_iff_eq_none.mp unused
        have dataRow : (rows s.db (outboundKey friendNumber m₁.id)).dataRow = none := by
          by_contra held
          have paired := numbered.paired _ rfl held
          rw [metaRow] at paired
          cases paired
        have empty : rows s₁.db (outboundKey friendNumber m₁.id) = {} := by
          rw [store]
          exact congrArg₂ Rows.mk metaRow dataRow
        have whole := Bookkeeping.numParts_le_of_split (List.ne_nil_of_length_pos (by omega)) split
        have row : outboundRowBytes friendNumber m₁.id message.length (toInt32 m₁.numParts).toNat receipt ≤
            w.limit.val := by
          rw [shape.id, shape.numParts]
          exact (row_fits_iff whole).mpr (fits receipt)
        cases failed.symm.trans (insert_ok_iff.mpr ⟨empty, row, rfl⟩)
      · cases failed
    · cases failed
  · cases failed

theorem sound_of_run {acts : List Act} (run : Run act (fun _ a => Sized a) Founded acts c) : Sound c :=
  run.invariant (I := Sound) (fun _ => sound_founded) fun _ _ _ before sized ran => before.act sized ran

theorem Sound.newFor (sound : Sound c)
    (clear : ∀ id, Recorded c.found friendNumber id → ¬ Repeats c.world c.state id) : NewFor c friendNumber := by
  have unused : ∀ id, Recorded c.state.db friendNumber id → (generateMsgId c.world c.state).1 ≠ id := by
    intro id recorded same
    rcases sound.numbered.counted friendNumber id recorded with before | given
    · exact clear id before (repeats_iff.mpr same)
    · have above : c.state.lastMsgId < (generateMsgId c.world c.state).1 := Nat.le_max_right ..
      have given : id ≤ c.state.lastMsgId := given
      omega
  refine ⟨unused, fun type message m long split fits => ?_, fun limit sender db heard => ?_⟩
  · exact recordable_of_unused sound.numbered (fun recorded => unused _ recorded rfl) long split fits
  · refine rows_unheard heard fun d member => ?_
    obtain ⟨⟨friend, d'⟩, inside, same⟩ := List.mem_map.mp member
    obtain ⟨sent, mine⟩ := List.mem_filter.mp inside
    have mine : friend = friendNumber := by simpa using mine
    have same : d' = d := same
    subst mine same
    obtain ⟨id, marked, recorded⟩ := sound.sent sent
    exact ⟨id, marked, fun again => unused id recorded again.symm⟩

/-- In whatever order messages are sent and processes restarted, and whatever the
clock shows: the next id is new for the friend exactly if it repeats none that
was on record when this process started. -/
theorem new_id_iff {acts : List Act} (run : Run act (fun _ a => Sized a) Founded acts c) :
    NewFor c friendNumber ↔ ∀ id, Recorded c.found friendNumber id → ¬ Repeats c.world c.state id := by
  have sound := sound_of_run run
  refine ⟨fun new id recorded again => ?_, sound.newFor⟩
  exact new.unused id (sound.numbered.kept friendNumber id recorded) (repeats_iff.mp again)

/-- A clock that stands still. -/
def stopped : World := scripted { maxMessageLength := 64 } [5, 6] []

/-- Within its process the first message's id is not given again. -/
theorem new_id_iff_second : ∃ c, Run act (fun _ a => Sized a) Founded
      [.op (.send 1 0 (List.replicate 65 1) fun _ => 0)] c ∧ c.state.lastMsgId = 1234567890123 ∧ NewFor c 1 := by
  obtain ⟨c, run, checked⟩ := @exists_run _ _ _ Founded act (fun _ a => Sized a) _
    [.op (.send 1 0 (List.replicate 65 1) fun _ => 0)] (fun c => c.state.lastMsgId = 1234567890123)
    { world := stopped, state := initialState stopped }
    ⟨stopped, _, by decide, started_initialState stopped, rfl⟩ (by decide +kernel)
  have found : c.found = {} := by
    cases run with
    | cons begun _ ran =>
      cases begun with
      | nil founded =>
        obtain ⟨_, _, _, _, rfl⟩ := founded
        obtain ⟨_, _, same⟩ := bind_ok.mp ran
        cases same
        rfl
  refine ⟨c, run, of_decide_eq_true checked, (new_id_iff run).mpr fun id recorded => ?_⟩
  rw [Recorded, found] at recorded
  cases recorded

/-- A message, a restart, and no time has passed: the next message gets the id
of the first, and recording it fails. -/
theorem id_given_again : ∃ c, Run act (fun _ a => Sized a) (fun c => Founded c ∧ c.world = stopped)
      [.restart stopped, .op (.send 1 0 (List.replicate 65 1) fun _ => 0)] c ∧
    (∀ n, stopped.clock n = 1234567890123) ∧
    c.world = stopped ∧ friendSendMessageLong c.world c.state 1 0 (List.replicate 65 2) = .error .abort ∧
    ¬ NewFor c 1 := by
  have founded : Founded { world := stopped, state := initialState stopped } :=
    ⟨stopped, _, by decide, started_initialState stopped, rfl⟩
  obtain ⟨c, run, checked⟩ := @exists_run _ _ _ (fun c => Founded c ∧ c.world = stopped) act (fun _ a => Sized a) _
    [.op (.send 1 0 (List.replicate 65 1) fun _ => 0), .restart stopped]
    (fun c => (rows c.found (outboundKey 1 1234567890123)).metaRow.isSome = true ∧
      c.world.params.maxMessageLength = 64 ∧ c.world.limit = defaultLimit ∧
      failure (friendSendMessageLong c.world c.state 1 0 (List.replicate 65 2)) = some .abort ∧
      (splitMessage c.state.markerMaxSizeEver (List.replicate 65 2) c.world.params.maxMessageLength
        (generateMsgId c.world c.state).1).toOption.any (fun m => m.numParts = 2) = true)
    { world := stopped, state := initialState stopped } ⟨founded, rfl⟩ (by decide +kernel)
  obtain ⟨recorded, room, limit, failed, splits⟩ := of_decide_eq_true checked
  have failed := failure_eq failed
  obtain ⟨m, split, two⟩ := Restart.any_toOption.mp splits
  have two : m.numParts = 2 := of_decide_eq_true two
  refine ⟨c, run, fun _ => rfl, ?_, failed, fun new =>
    new.recordable 0 (List.replicate 65 2) m ?_ split (fun receipt => ?_) failed⟩
  · cases run with
    | cons _ _ ran =>
      obtain ⟨_, _, same⟩ := bind_ok.mp ran
      cases same
      rfl
  · rw [room, List.length_replicate]
    decide
  · have within := (outboundRowBytes_bounds 1 m.id 65 2 receipt).2
    rw [limit, List.length_replicate, two]
    exact Nat.le_trans within (by decide)

end Defragmenter.MessageIds
