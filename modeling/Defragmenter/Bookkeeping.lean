import Defragmenter.Accounting
import Defragmenter.Messages
import Defragmenter.OutboundStore

/-! The two copies of a message. A message is kept at its address and in two
rows and a blob, and each receipt updates one after the other. While the
accounts are in order, the copies agree, and no row is left of a message that
is gone. -/
namespace Defragmenter.Bookkeeping
open Database InboundStore OutboundStore Split Tiling Receipts Sender Moves Provenance Tracking
  Accounting Messages Runs

/-- The flag of a part as a byte of the `confirmed` blob. -/
def flagByte (m : MsgOutbound) (i : Nat) : UInt8 := if (part m i).confirmed then 1 else 0

/-- The rows of the message agree with it. -/
def RecordedIn (db : Db) (m : MsgOutbound) : Prop :=
  ∃ row data blob, rows db (outboundKey m.friendNumber m.id) = ⟨some row, some data⟩ ∧
    data.confirmed = some blob ∧ blob.length = m.numParts ∧ m.numParts < 2 ^ 31 ∧
    row.fragsDone = m.numConfirmed ∧ row.fragsNum = m.numParts ∧
    ∀ i < m.numParts, blob[i]? = some (flagByte m i)

structure Stored (v : View) : Prop where
  recorded : ∀ a m, v.s.heap a = some m → (∃ bytes, v.forming = some (a, bytes)) ∨
    RecordedIn v.s.db m
  distinct : ∀ a b m m', v.s.heap a = some m → v.s.heap b = some m' → m.id = m'.id → a = b
  ids : ∀ a m, v.s.heap a = some m → m.id ≤ v.s.lastMsgId
  /-- A row of an outgoing message is one of a message there is. -/
  backed : ∀ key : Key, key.outbound = true → (rows v.s.db key).dataRow ≠ none →
    ∃ a m, v.s.heap a = some m ∧ (∀ bytes, v.forming ≠ some (a, bytes)) ∧
      key = outboundKey m.friendNumber m.id
  /-- Every outgoing message there ever was got a smaller id than the next. -/
  past : ∀ key : Key, key.outbound = true → rows v.s.db key ≠ {} → key.fragsId ≤ v.s.lastMsgId ∧
    ∀ a bytes m, v.forming = some (a, bytes) → v.s.heap a = some m → key.fragsId < m.id
  formed : ∀ a bytes m, v.forming = some (a, bytes) → v.s.heap a = some m →
    m.numParts ≤ bytes.length ∧ m.numConfirmed = 0 ∧ ∀ i, (part m i).confirmed = false

variable {w : World} {v v' : View} {label : Label} {s s' : State} {taken taken' : Option Nat}
  {forming : Option (Nat × List UInt8)} {msg i : Nat} {m m' : MsgOutbound} {db db' : Db}

theorem Stored.initial : Stored ⟨initialState w, none, none⟩ where
  recorded _ _ found := by cases found
  distinct _ _ _ _ found := by cases found
  ids _ _ found := by cases found
  backed key _ held := absurd rfl held
  past key _ held := absurd rfl held
  formed _ _ _ forming := by cases forming

theorem RecordedIn.congr (recorded : RecordedIn db m) (shape : SameShape m m')
    (numConfirmed : m'.numConfirmed = m.numConfirmed)
    (flags : ∀ i, (part m' i).confirmed = (part m i).confirmed) : RecordedIn db m' := by
  unfold RecordedIn flagByte at *
  simp only [shape.friendNumber, shape.id, shape.numParts, numConfirmed, flags]
  exact recorded

theorem RecordedIn.agree {key : Key} (recorded : RecordedIn db m) (agree : AgreeOff key db db')
    (different : outboundKey m.friendNumber m.id ≠ key) : RecordedIn db' m := by
  obtain ⟨row, data, blob, here, rest⟩ := recorded
  exact ⟨row, data, blob, (agree _ different).trans here, rest⟩

/-- Messages of different ids have different keys. -/
theorem outboundKey_ne (different : m.id ≠ m'.id) :
    outboundKey m.friendNumber m.id ≠ outboundKey m'.friendNumber m'.id :=
  fun same => different (congrArg Key.fragsId same)

theorem Stored.frame (stored : Stored ⟨s, taken, forming⟩) (heap : s'.heap = s.heap)
    (lastMsgId : s'.lastMsgId = s.lastMsgId) (store : ∀ key, rows s'.db key = rows s.db key) :
    Stored ⟨s', taken', forming⟩ := by
  obtain ⟨recorded, distinct, ids, backed, past, formed⟩ := stored
  constructor <;> simp only [RecordedIn, heap, lastMsgId, store] at * <;> assumption

/-- One message changes where it stands, and its rows need not. -/
theorem Stored.update (stored : Stored ⟨s, taken, forming⟩) (found : s.heap msg = some m)
    (shape : SameShape m m') (numConfirmed : m'.numConfirmed = m.numConfirmed)
    (flags : ∀ i, (part m' i).confirmed = (part m i).confirmed)
    (heap : s'.heap = Function.update s.heap msg (some m'))
    (lastMsgId : s'.lastMsgId = s.lastMsgId) (store : s'.db = s.db) :
    Stored ⟨s', taken', forming⟩ := by
  -- every message was one of the same id and key
  have before : ∀ {a m₁}, s'.heap a = some m₁ → ∃ m₀, s.heap a = some m₀ ∧ SameShape m₀ m₁ ∧
      m₁.numConfirmed = m₀.numConfirmed ∧ ∀ i, (part m₁ i).confirmed = (part m₀ i).confirmed := by
    intro a m₁ here
    rw [heap] at here
    obtain ⟨mine, same⟩ | ⟨_, here⟩ := heap_update_iff.mp here
    · cases same
      exact ⟨m, mine ▸ found, shape, numConfirmed, flags⟩
    · exact ⟨m₁, here, ⟨rfl, rfl, rfl, rfl⟩, rfl, fun _ => rfl⟩
  refine ⟨fun a m₁ here => ?_, fun a b m₁ m₂ here here' same => ?_, fun a m₁ here => ?_,
    fun key outbound held => ?_, fun key outbound held => ?_, fun a bytes m₁ forms here => ?_⟩
  · obtain ⟨m₀, found, shape, count, flags⟩ := before here
    change _ ∨ RecordedIn s'.db m₁
    rw [store]
    exact (stored.recorded a m₀ found).imp_right fun recorded => recorded.congr shape count flags
  · obtain ⟨m₀, found, shape, _⟩ := before here
    obtain ⟨m₀', found', shape', _⟩ := before here'
    exact stored.distinct a b m₀ m₀' found found' (by rw [← shape.id, ← shape'.id, same])
  · obtain ⟨m₀, found, shape, _⟩ := before here
    change m₁.id ≤ s'.lastMsgId
    rw [shape.id, lastMsgId]
    exact stored.ids a m₀ found
  · change (rows s'.db key).dataRow ≠ none at held
    rw [store] at held
    obtain ⟨a, m₀, found₀, unformed, same⟩ := stored.backed key outbound held
    obtain ⟨m₁, here⟩ : ∃ m₁, s'.heap a = some m₁ := by
      rw [heap]
      exact held_update ⟨m₀, found₀⟩
    obtain ⟨m₂, found₂, shape, _⟩ := before here
    cases found₀.symm.trans found₂
    exact ⟨a, m₁, here, unformed, by rw [same, shape.friendNumber, shape.id]⟩
  · change rows s'.db key ≠ {} at held
    rw [store] at held
    obtain ⟨known, next⟩ := stored.past key outbound held
    refine ⟨lastMsgId ▸ known, fun a bytes m₁ forms here => ?_⟩
    obtain ⟨m₀, found, shape, _⟩ := before here
    rw [shape.id]
    exact next a bytes m₀ forms found
  · obtain ⟨m₀, found, shape, count, flags⟩ := before here
    obtain ⟨size, none, unconfirmed⟩ := stored.formed a bytes m₀ forms found
    refine ⟨shape.numParts ▸ size, count.trans none, fun i => ?_⟩
    rw [flags]
    exact unconfirmed i

/-- A message is taken away that has no rows, or whose data row goes with it. -/
theorem Stored.erase (stored : Stored ⟨s, taken, forming⟩) (found : s.heap msg = some m)
    (heap : s'.heap = Function.update s.heap msg none) (lastMsgId : s'.lastMsgId = s.lastMsgId)
    (others : AgreeOff (outboundKey m.friendNumber m.id) s.db s'.db)
    (gone : (rows s'.db (outboundKey m.friendNumber m.id)).dataRow = none)
    (metaRow : (rows s'.db (outboundKey m.friendNumber m.id)).metaRow =
      (rows s.db (outboundKey m.friendNumber m.id)).metaRow)
    (unformed : ∀ a bytes, forming = some (a, bytes) → a = msg) : Stored ⟨s', taken', none⟩ := by
  have before : ∀ {a m₁}, s'.heap a = some m₁ → a ≠ msg ∧ s.heap a = some m₁ := by
    intro a m₁ here
    rw [heap] at here
    obtain ⟨_, none⟩ | both := heap_update_iff.mp here
    · cases none
    · exact both
  have away : ∀ {a m₁}, s'.heap a = some m₁ →
      outboundKey m₁.friendNumber m₁.id ≠ outboundKey m.friendNumber m.id := by
    intro a m₁ here
    obtain ⟨other, here⟩ := before here
    exact outboundKey_ne fun same => other (stored.distinct a msg m₁ m here found same)
  refine ⟨fun a m₁ here => .inr ?_, fun a b m₁ m₂ here here' => ?_, fun a m₁ here => ?_,
    fun key outbound held => ?_, fun key outbound held => ?_, by simp⟩
  · obtain ⟨other, here'⟩ := before here
    rcases stored.recorded a m₁ here' with ⟨bytes, forms⟩ | recorded
    · exact absurd (unformed a bytes forms) other
    · exact recorded.agree others (away here)
  · exact stored.distinct a b m₁ m₂ (before here).2 (before here').2
  · change m₁.id ≤ s'.lastMsgId
    rw [lastMsgId]
    exact stored.ids a m₁ (before here).2
  · change (rows s'.db key).dataRow ≠ none at held
    have different : key ≠ outboundKey m.friendNumber m.id := by
      rintro rfl
      exact held gone
    rw [others key different] at held
    obtain ⟨a, m₁, here, free, same⟩ := stored.backed key outbound held
    have other : a ≠ msg := by
      rintro rfl
      rw [found] at here
      cases here
      exact different same
    exact ⟨a, m₁, by change s'.heap a = _; rw [heap, Function.update_of_ne other, here], by simp, same⟩
  · change rows s'.db key ≠ {} at held
    refine ⟨?_, by simp⟩
    change key.fragsId ≤ s'.lastMsgId
    rw [lastMsgId]
    refine (stored.past key outbound fun empty => held ?_).1
    by_cases same : key = outboundKey m.friendNumber m.id
    · subst same
      have empty : rows s.db (outboundKey m.friendNumber m.id) = {} := empty
      rw [empty] at metaRow
      exact congrArg₂ Rows.mk metaRow gone
    · exact (others key same).trans empty

/-- A message has no more parts than bytes, whatever the limit is. -/
theorem numParts_le_of_split {markerMaxSizeEver maxLength id : Nat} {message : List UInt8}
    (nonempty : message ≠ [])
    (split : splitMessage markerMaxSizeEver message maxLength id = .ok m) :
    m.numParts ≤ message.length := by
  have positive : 0 < message.length := List.length_pos_iff.mpr nonempty
  unfold splitMessage at split
  dsimp only at split
  split at split
  · cases split
  · split at split
    · cases split
    · rename_i someRoom
      cases split
      generalize toSize ((maxLength : Int) - _) = size at someRoom ⊢
      have sizePos : 0 < size := Nat.pos_of_ne_zero someRoom
      have whole : toSize ((message.length : Int) + size - 1) ≤ message.length + size - 1 := by
        unfold toSize
        omega
      have pieces := pieceCount_le message.length sizePos
      have divided := Nat.div_le_div_right (c := size) whole
      have small : ∀ n : Nat, toUnsigned n ≤ n := by
        intro n
        unfold toUnsigned
        omega
      exact (small _).trans (divided.trans pieces)

theorem Stored.begun {friendNumber : Nat} {message : List UInt8} (stored : Stored ⟨s, none, none⟩)
    (issued : Issued w s) (long : w.params.maxMessageLength < message.length)
    (split : splitMessage s.markerMaxSizeEver message w.params.maxMessageLength
      (max (w.clock s.ticks) (s.lastMsgId + 1)) = .ok m) :
    Stored ⟨begunState w s friendNumber m, none, some (s.fresh, message)⟩ := by
  have unsent := unsent_of_split split
  have newest : s.lastMsgId < m.id := by
    rw [unsent.id_eq]
    omega
  have last : (begunState w s friendNumber m).lastMsgId = m.id := unsent.id_eq.symm
  have cases_ : ∀ {a m₁}, (begunState w s friendNumber m).heap a = some m₁ →
      a = s.fresh ∧ m₁ = { m with friendNumber } ∨ a < s.fresh ∧ s.heap a = some m₁ := by
    intro a m₁ here
    obtain ⟨mine, same⟩ | ⟨_, here⟩ := heap_update_iff.mp here
    · exact .inl ⟨mine, (Option.some.inj same).symm⟩
    · exact .inr ⟨issued.below here, here⟩
  refine ⟨fun a m₁ here => ?_, fun a b m₁ m₂ here here' same => ?_, fun a m₁ here => ?_,
    fun key outbound held => ?_, fun key outbound held => ?_, fun a bytes m₁ forms here => ?_⟩
  · rcases cases_ here with ⟨rfl, _⟩ | ⟨_, here⟩
    · exact .inl ⟨message, rfl⟩
    · exact .inr ((stored.recorded a m₁ here).resolve_left (by simp))
  · rcases cases_ here with ⟨rfl, rfl⟩ | ⟨_, old⟩ <;> rcases cases_ here' with ⟨rfl, rfl⟩ | ⟨_, old'⟩
    · rfl
    · have := stored.ids b m₂ old'
      change m.id = m₂.id at same
      change m₂.id ≤ s.lastMsgId at this
      omega
    · have := stored.ids a m₁ old
      change m₁.id = m.id at same
      change m₁.id ≤ s.lastMsgId at this
      omega
    · exact stored.distinct a b m₁ m₂ old old' same
  · change m₁.id ≤ (begunState w s friendNumber m).lastMsgId
    rw [last]
    rcases cases_ here with ⟨_, rfl⟩ | ⟨_, old⟩
    · exact Nat.le_refl _
    · exact (stored.ids a m₁ old).trans (Nat.le_of_lt newest)
  · obtain ⟨a, m₁, here, _, same⟩ := stored.backed key outbound held
    have below : a < s.fresh := issued.below here
    refine ⟨a, m₁, (Function.update_of_ne (Nat.ne_of_lt below) _ _).trans here, fun bytes forms => ?_, same⟩
    have := (Prod.mk.inj (Option.some.inj forms)).1
    omega
  · have known : key.fragsId ≤ s.lastMsgId := (stored.past key outbound held).1
    refine ⟨?_, fun a bytes m₁ forms here => ?_⟩
    · change key.fragsId ≤ (begunState w s friendNumber m).lastMsgId
      rw [last]
      omega
    · cases forms
      cases (Function.update_self (f := s.heap) ..).symm.trans here
      exact Nat.lt_of_le_of_lt known newest
  · cases forms
    cases (Function.update_self (f := s.heap) ..).symm.trans here
    have nonempty : message ≠ [] := by
      rintro rfl
      exact absurd long (Nat.not_lt_zero _)
    have parts := numParts_le_of_split nonempty split
    exact ⟨parts, unsent.numConfirmed, fun i => (blank_of_unsent unsent i).2⟩

theorem Stored.opened {receipt : Nat} {type : Int} {message : List UInt8}
    (stored : Stored ⟨s, none, some (msg, message)⟩) (found : s.heap msg = some m)
    (ran : dbInsertOutboundMessage w.limit s.db m.friendNumber type m.id m.id m.numParts message
      receipt = .ok db) :
    Stored ⟨openedState s msg m type message receipt db, none, none⟩ := by
  obtain ⟨own, others⟩ := rows_inserted ran
  have fits := length_le_of_inserted ran
  have bound : w.limit.val < 2 ^ 31 := w.limit.property
  obtain ⟨size, none, unconfirmed⟩ := stored.formed msg message m rfl found
  have cases_ : ∀ {a m₁}, (openedState s msg m type message receipt db).heap a = some m₁ →
      a = msg ∧ m₁ = { m with type, receipt } ∨ a ≠ msg ∧ s.heap a = some m₁ := by
    intro a m₁ here
    exact (heap_update_iff.mp here).imp_left fun both => ⟨both.1, (Option.some.inj both.2).symm⟩
  have distinct : ∀ {a m₁}, s.heap a = some m₁ → a ≠ msg → m₁.id ≠ m.id :=
    fun here other same => other (stored.distinct _ msg _ m here found same)
  refine ⟨fun a m₁ here => .inr ?_, fun a b m₁ m₂ here here' same => ?_, fun a m₁ here => ?_,
    fun key outbound held => ?_, fun key outbound held => ⟨?_, by simp⟩, by simp⟩
  · rcases cases_ here with ⟨_, rfl⟩ | ⟨other, here⟩
    · have parts : m.numParts < 2 ^ 31 := by omega
      have count : toInt32 m.numParts = m.numParts := toInt32_of_lt parts
      have blob : List.replicate (toInt32 m.numParts).toNat (0 : UInt8) = List.replicate m.numParts 0 := by
        rw [count, Int.toNat_natCast]
      have zero : (0 : Int) = m.numConfirmed := by
        rw [none]
        rfl
      refine ⟨_, _, List.replicate m.numParts 0, own, congrArg some blob, List.length_replicate, parts,
        zero, ?_, fun i inside => ?_⟩
      · simp only [count]
      · have blank : flagByte { m with type, receipt } i = 0 := by
          change (if (part m i).confirmed then 1 else 0) = 0
          rw [unconfirmed]
          rfl
        rw [blank]
        simp [inside]
    · rcases stored.recorded a m₁ here with ⟨_, forms⟩ | recorded
      · cases forms
        exact absurd rfl other
      · exact recorded.agree others (outboundKey_ne (distinct here other))
  · rcases cases_ here with ⟨rfl, rfl⟩ | ⟨other, old⟩ <;>
      rcases cases_ here' with ⟨rfl, rfl⟩ | ⟨other', old'⟩
    · rfl
    · exact absurd same.symm (distinct old' other')
    · exact absurd same (distinct old other)
    · exact stored.distinct a b m₁ m₂ old old' same
  · rcases cases_ here with ⟨_, rfl⟩ | ⟨_, old⟩
    · exact stored.ids msg m found
    · exact stored.ids a m₁ old
  · by_cases same : key = outboundKey m.friendNumber m.id
    · exact ⟨msg, _, Function.update_self .., by simp, same⟩
    · change (rows db key).dataRow ≠ _ at held
      rw [others key same] at held
      obtain ⟨a, m₁, here, unformed, key_⟩ := stored.backed key outbound held
      have other : a ≠ msg := fun same => unformed message (by rw [same])
      exact ⟨a, m₁, (Function.update_of_ne other _ _).trans here, by simp, key_⟩
  · by_cases same : key = outboundKey m.friendNumber m.id
    · subst same
      exact stored.ids msg m found
    · change rows db key ≠ _ at held
      rw [others key same] at held
      exact (stored.past key outbound held).1

/-- The receipt of a part that is not confirmed sets its flag in both copies. -/
theorem Stored.confirmed {j : Nat} (stored : Stored ⟨s, none, none⟩) (owned : Owned ⟨s, none, none⟩)
    (orderly : Orderly w ⟨s, none, none⟩) (held : s.receipts.key j ≠ 0)
    (found : s.heap (s.receipts.receipts j).msg = some m) :
    ∃ db, dbOutboundPartConfirmed s.db m.friendNumber m.id (s.receipts.receipts j).partNo
        (w.clock s.ticks) = .ok db ∧
      Stored ⟨confirmedState s j m db, some j, none⟩ := by
  have number := orderly.issued.part held found
  have shaped := orderly.issued.shaped found
  have unconfirmed := (owned.owns j m ⟨held, by simp⟩ found).2
  generalize numbered : (s.receipts.receipts j).partNo = p at *
  have inside : p - 1 < m.numParts := by omega
  obtain ⟨_, fewer⟩ := confirmedParts_partConfirmed shaped.1 inside unconfirmed
  rw [← owned.counted _ m found] at fewer
  obtain ⟨row, data, blob, here, confirmed, length, small, done, num, flags⟩ :=
    (stored.recorded _ m found).resolve_left (by simp)
  obtain ⟨db, ran, own, others⟩ :=
    @rows_partConfirmed s.db m.friendNumber m.id (w.clock s.ticks) p row data blob here confirmed
      (by omega) (by omega) (by omega)
  refine ⟨db, ran, ?_⟩
  have part_eq := fun k => @part_partConfirmed m k p (by omega)
  have cases_ : ∀ {a m₁}, (confirmedState s j m db).heap a = some m₁ →
      a = (s.receipts.receipts j).msg ∧ m₁ = partConfirmed m p ∨
        a ≠ (s.receipts.receipts j).msg ∧ s.heap a = some m₁ := by
    intro a m₁ here
    obtain ⟨mine, same⟩ | both := heap_update_iff.mp here
    · rw [numbered] at same
      exact .inl ⟨mine, (Option.some.inj same).symm⟩
    · exact .inr both
  -- the same messages as before, by id
  have before : ∀ {a m₁}, (confirmedState s j m db).heap a = some m₁ →
      ∃ m₀, s.heap a = some m₀ ∧ m₁.id = m₀.id ∧ m₁.friendNumber = m₀.friendNumber := by
    intro a m₁ here
    rcases cases_ here with ⟨rfl, rfl⟩ | ⟨_, old⟩
    · exact ⟨m, found, rfl, rfl⟩
    · exact ⟨m₁, old, rfl, rfl⟩
  refine ⟨fun a m₁ here => .inr ?_, fun a b m₁ m₂ here here' same => ?_, fun a m₁ here => ?_,
    fun key outbound held => ?_, fun key outbound held => ⟨?_, by simp⟩, by simp⟩
  · rcases cases_ here with ⟨_, rfl⟩ | ⟨other, old⟩
    · refine ⟨_, _, blob.set (p - 1) 1, own, rfl, by rw [List.length_set, length]; rfl, small, ?_, num,
        fun i insideI => ?_⟩
      · change row.fragsDone + 1 = ((m.numConfirmed + 1) % 2 ^ 32 : Nat)
        rw [done]
        omega
      · rw [flagByte, part_eq]
        by_cases same : i = p - 1
        · subst same
          rw [List.getElem?_set_self (by omega), if_pos rfl]
          rfl
        · rw [List.getElem?_set_ne (Ne.symm same), if_neg same]
          exact flags i insideI
    · have recorded := (stored.recorded a m₁ old).resolve_left (by simp)
      exact recorded.agree others
        (outboundKey_ne fun same => other (stored.distinct a _ m₁ m old found same))
  · obtain ⟨m₀, old, id, _⟩ := before here
    obtain ⟨m₀', old', id', _⟩ := before here'
    exact stored.distinct a b m₀ m₀' old old' (by rw [← id, ← id', same])
  · obtain ⟨m₀, old, id, _⟩ := before here
    change m₁.id ≤ s.lastMsgId
    rw [id]
    exact stored.ids a m₀ old
  · by_cases same : key = outboundKey m.friendNumber m.id
    · exact ⟨(s.receipts.receipts j).msg, _, Function.update_self .., by simp, same⟩
    · change (rows db key).dataRow ≠ _ at held
      rw [others key same] at held
      obtain ⟨a, m₁, old, _, key_⟩ := stored.backed key outbound held
      have other : a ≠ (s.receipts.receipts j).msg := by
        rintro rfl
        rw [found] at old
        cases old
        exact same key_
      exact ⟨a, m₁, (Function.update_of_ne other _ _).trans old, by simp, key_⟩
  · by_cases same : key = outboundKey m.friendNumber m.id
    · subst same
      exact stored.ids _ m found
    · change rows db key ≠ _ at held
      rw [others key same] at held
      exact (stored.past key outbound held).1

theorem flags_partSent {receipt : Nat} (inside : i < m.fragments.length) (k : Nat) :
    (part (partSent m i receipt) k).confirmed = (part m k).confirmed := by
  rw [part_partSent inside]
  split
  · rename_i same
    rw [same]
  · rfl

/-- Every move keeps the copies alike while the accounts are in order. -/
theorem Stored.move (stored : Stored v) (orderly : Orderly w v) (owned : Owned v)
    (move : Move w label v v') : Stored v' := by
  cases move with
  | idle | short | passed | firstRefused | nextRefused | failedRefused | cleared =>
    exact stored.frame rfl rfl fun _ => rfl
  | begun long split => exact stored.begun orderly.issued long split
  | opened found _ _ _ ran => exact stored.opened found ran
  | @dropped s msg message m found =>
    -- a message under construction has no rows yet
    have bare : (rows s.db (outboundKey m.friendNumber m.id)).dataRow = none := by
      refine Decidable.not_not.mp fun held => ?_
      obtain ⟨a, m₁, here, unformed, same⟩ := stored.backed _ rfl held
      have mine : msg = a := stored.distinct msg a m m₁ found here (congrArg Key.fragsId same)
      exact unformed message (by rw [mine])
    refine stored.erase found rfl rfl (fun _ _ => rfl) bare rfl fun a bytes forms => ?_
    exact (Prod.mk.inj (Option.some.inj forms)).1.symm
  | @firstSent s msg i _ m found inside | @nextSent s _ msg i m found inside =>
    have inside : i < m.fragments.length := (orderly.issued.shaped found).1 ▸ inside
    exact stored.update found sameShape_sentLast rfl (flags_partSent inside) rfl rfl rfl
  | @failedSent s _ msg i m found inside =>
    have inside : i < m.fragments.length := (orderly.issued.shaped found).1 ▸ inside
    exact stored.update found sameShape_partSent rfl (flags_partSent inside) rfl rfl rfl
  | @lost s now j m _ _ found =>
    have first : Stored ⟨lostState s j (s.receipts.receipts j).msg m, none, none⟩ :=
      stored.update found sameShape_partLost rfl (fun _ => rfl) rfl rfl rfl
    exact first.frame rfl rfl fun _ => rfl
  | @resent s now j m held _ found =>
    have issued : Issued w s := orderly.issued
    have inside : (s.receipts.receipts j).partNo - 1 < m.fragments.length :=
      issued.place held found
    have first : Stored ⟨lostState s j (s.receipts.receipts j).msg m, none, none⟩ :=
      stored.update found sameShape_partLost rfl (fun _ => rfl) rfl rfl rfl
    exact first.update (Function.update_self ..) sameShape_partSent rfl (flags_partSent inside) rfl rfl rfl
  | @confirmed s _ _ j m db nonzero _ held found ran =>
    obtain ⟨db', ran', after⟩ := stored.confirmed owned orderly (held ▸ nonzero) found
    rw [ran, Except.ok.injEq] at ran'
    rw [ran']
    exact after
  | @completed s _ _ j m found =>
    have cleared := @rows_cleared s.db m.friendNumber m.id
    have own := (cleared (outboundKey m.friendNumber m.id)).trans (if_pos rfl)
    have others : AgreeOff (outboundKey m.friendNumber m.id) s.db
        (dbClearOutboundPending s.db m.friendNumber m.id) :=
      fun key other => (cleared key).trans (if_neg other)
    have dataRow := congrArg Rows.dataRow own
    have metaRow := congrArg Rows.metaRow own
    exact stored.erase found rfl rfl others dataRow metaRow (by simp)

end Defragmenter.Bookkeeping
