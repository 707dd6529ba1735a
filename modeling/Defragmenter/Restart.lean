import Defragmenter.Moves
import Defragmenter.OutboundStore

/-! What a restart makes of a pending message. The row holds the bytes and the
confirmations; the fragments are computed again, by a process that has not set
`markerMaxSizeEver` yet, and the type and the client's number of the row are
not looked at. -/
namespace Defragmenter.Restart
open Database InboundStore OutboundStore Split Sender Marker Tiling Receipts Moves Decimal

/-- A long message an earlier process sent, under the bounds it kept. -/
structure Outgoing where
  friendNumber : Nat
  id : Nat
  type : Int
  receipt : Nat
  maxLength : Nat
  bytes : List UInt8
  room : 63 < maxLength
  maxLengthSmall : maxLength < 2 ^ 32
  long : maxLength < bytes.length

/-- The message as the earlier process split it, `initialize` behind it. -/
def Outgoing.SplitAs (o : Outgoing) (msg : MsgOutbound) : Prop :=
  splitMessage (markerMaxSizeBytes (2 ^ 31 - 1) (2 ^ 31 - 1)) o.bytes o.maxLength o.id = .ok msg

def Outgoing.key (o : Outgoing) : Key := ⟨true, o.friendNumber, o.id⟩

/-- The store after the message was recorded and the receipts for these parts came in. -/
inductive Recorded (limit : BlobLimit) (o : Outgoing) : Finset Nat → Db → Prop where
  | inserted {db db' : Db} {tm : Nat} {msg : MsgOutbound} : o.SplitAs msg →
      dbInsertOutboundMessage limit db o.friendNumber o.type o.id tm msg.numParts o.bytes o.receipt =
        .ok db' → Recorded limit o ∅ db'
  | confirmed {db db' : Db} {parts : Finset Nat} {partNo tm : Nat} {msg : MsgOutbound} :
      Recorded limit o parts db → o.SplitAs msg → partNo ∉ parts → 0 < partNo →
      partNo ≤ msg.numParts → dbOutboundPartConfirmed db o.friendNumber o.id partNo tm = .ok db' →
      Recorded limit o (insert partNo parts) db'
  /-- Whatever happens to other rows. -/
  | other {db db' : Db} {parts : Finset Nat} : Recorded limit o parts db →
      rows db' o.key = rows db o.key → Recorded limit o parts db'

/-- The row is still there, and a message is linked that continues the one the
earlier process split, with these parts confirmed. -/
def Restored (o : Outgoing) (parts : Finset Nat) (s : State) : Prop :=
  (rows s.db o.key).dataRow.isSome ∧ ∃ a m msg, a ∈ s.msgsOutbound ∧ s.heap a = some m ∧
    o.SplitAs msg ∧ m.friendNumber = o.friendNumber ∧ m.id = o.id ∧ m.type = o.type ∧
    m.receipt = o.receipt ∧ m.numParts = msg.numParts ∧
    ∀ k < msg.numParts, ((part m k).confirmed = true ↔ k + 1 ∈ parts) ∧
      (k + 1 ∉ parts → (part m k).data = (part msg k).data ∧
        (part m k).length = (part msg k).length)

/-! ## The row -/

namespace Outgoing
variable (o : Outgoing)

/-- The chunk size of the earlier process, and that of a process that is starting. -/
def size : Nat := chunkSize 63 o.maxLength o.bytes.length
def startSize : Nat := chunkSize 0 o.maxLength o.bytes.length

def numParts : Nat := pieceCount o.size o.bytes.length

variable {o}

theorem size_pos (small : o.bytes.length < 2 ^ 32) : 0 < o.size :=
  chunkSize_pos (Nat.le_refl 63) o.room small

theorem startSize_pos (small : o.bytes.length < 2 ^ 32) : 0 < o.startSize :=
  chunkSize_pos (Nat.zero_le 63) o.room small

theorem splitAs_iff (small : o.bytes.length < 2 ^ 32) {msg : MsgOutbound} :
    o.SplitAs msg ↔ msg = splitInto o.id o.size o.bytes := by
  rw [SplitAs, markerMaxSizeEver_eq, splitMessage_eq (Nat.le_refl 63) o.room o.maxLengthSmall small,
    Except.ok.injEq]
  exact eq_comm

theorem numParts_le (small : o.bytes.length < 2 ^ 32) : o.numParts ≤ o.bytes.length :=
  pieceCount_le _ (size_pos small)

end Outgoing

/-- The rows of a recorded message. -/
structure RowsOf (limit : BlobLimit) (o : Outgoing) (parts : Finset Nat) (r : Rows) : Prop where
  small : o.bytes.length ≤ limit.val
  metaRow : ∃ row, r.metaRow = some row ∧ row.fragsDone = parts.card ∧ row.fragsNum = o.numParts
  dataRow : ∃ row blob, r.dataRow = some row ∧ row.message = o.bytes ∧ row.confirmed = some blob ∧
    blob.length = o.numParts ∧ (∀ k < o.numParts, blob[k]? = some (if k + 1 ∈ parts then 1 else 0)) ∧
    blob.countP (· ≠ 0) = parts.card

variable {limit : BlobLimit} {o : Outgoing} {parts : Finset Nat} {db db' : Db}

theorem rowsOf_inserted {tm : Nat} {msg : MsgOutbound} (split : o.SplitAs msg)
    (ran : dbInsertOutboundMessage limit db o.friendNumber o.type o.id tm msg.numParts o.bytes
      o.receipt = .ok db') : RowsOf limit o ∅ (rows db' o.key) := by
  have small := length_le_of_inserted ran
  have bound : limit.val < 2 ^ 31 := limit.property
  have size : o.bytes.length < 2 ^ 32 := Nat.lt_trans (Nat.lt_of_le_of_lt small bound) (by decide)
  have parts := Outgoing.numParts_le size
  have exact_ : toInt32 msg.numParts = o.numParts := by
    rw [(Outgoing.splitAs_iff size).mp split]
    exact toInt32_of_lt (show o.numParts < 2 ^ 31 by omega)
  have own : rows db' o.key = newRows o.type tm msg.numParts o.bytes o.receipt := (rows_inserted ran).1
  rw [newRows, exact_, Int.toNat_natCast] at own
  rw [own]
  refine ⟨small, ⟨_, rfl, by simp, rfl⟩, ⟨_, _, rfl, rfl, rfl, List.length_replicate, fun k inside => ?_, ?_⟩⟩
  · simp [inside]
  · simp [List.countP_replicate]

/-- The blob once the byte of one more part is set. -/
theorem flags_set {blob : List UInt8} {n partNo : Nat} (length : blob.length = n)
    (flags : ∀ k < n, blob[k]? = some (if k + 1 ∈ parts then 1 else 0))
    (count : blob.countP (· ≠ 0) = parts.card) (new : partNo ∉ parts) (positive : 0 < partNo)
    (inside : partNo ≤ n) :
    (blob.set (partNo - 1) 1).length = n ∧
    (∀ k < n, (blob.set (partNo - 1) 1)[k]? = some (if k + 1 ∈ insert partNo parts then 1 else 0)) ∧
    (blob.set (partNo - 1) 1).countP (· ≠ 0) = (insert partNo parts).card := by
  have byte : blob[partNo - 1]? = some 0 := by
    rw [flags _ (by omega), if_neg (by rwa [Nat.sub_add_cancel positive])]
  have at_ : partNo - 1 < blob.length := by omega
  refine ⟨by rw [List.length_set, length], fun k insideK => ?_, ?_⟩
  · by_cases same : k = partNo - 1
    · subst same
      rw [List.getElem?_set_self at_, Nat.sub_add_cancel positive, if_pos (Finset.mem_insert_self _ _)]
    · rw [List.getElem?_set_ne (Ne.symm same), flags k insideK]
      have other : k + 1 ≠ partNo := by omega
      simp [other]
  · rw [List.getElem?_eq_getElem at_] at byte
    rw [List.countP_set at_, Option.some.inj byte, count, Finset.card_insert_of_notMem new]
    simp

/-- The receipt of one more part sets its byte and counts it. -/
theorem rowsOf_confirmed {partNo tm : Nat} (rowsOf : RowsOf limit o parts (rows db o.key))
    (new : partNo ∉ parts) (positive : 0 < partNo) (inside : partNo ≤ o.numParts)
    (ran : dbOutboundPartConfirmed db o.friendNumber o.id partNo tm = .ok db') :
    RowsOf limit o (insert partNo parts) (rows db' o.key) := by
  obtain ⟨small, ⟨row, metaFound, done, num⟩, data, blob, dataFound, message, confirmed, length, flags,
    count⟩ := rowsOf
  have bound : limit.val < 2 ^ 31 := limit.property
  have numParts := Outgoing.numParts_le (o := o) (by omega)
  have here : rows db (outboundKey o.friendNumber o.id) = ⟨some row, some data⟩ := by
    rw [← metaFound, ← dataFound]
    rfl
  obtain ⟨db₁, ran₁, own, _⟩ := @rows_partConfirmed db o.friendNumber o.id tm partNo row data blob here
    confirmed positive (by omega) (by omega)
  cases ran.symm.trans ran₁
  obtain ⟨length', flags', count'⟩ := flags_set length flags count new positive inside
  rw [show o.key = outboundKey o.friendNumber o.id from rfl, own]
  refine ⟨small, ⟨_, rfl, ?_, num⟩, _, _, rfl, message, rfl, length', flags', count'⟩
  change row.fragsDone + 1 = _
  rw [done, Finset.card_insert_of_notMem new]
  omega

theorem rowsOf_recorded (recorded : Recorded limit o parts db) : RowsOf limit o parts (rows db o.key) := by
  induction recorded with
  | inserted split ran => exact rowsOf_inserted split ran
  | confirmed _ split new positive inside ran ih =>
    have bound : limit.val < 2 ^ 31 := limit.property
    have small := ih.small
    rw [(Outgoing.splitAs_iff (by omega)).mp split] at inside
    exact rowsOf_confirmed ih new positive inside ran
  | other _ same ih => rwa [same]

/-! ## The chunk size -/

/-- A field ends at the first separator. -/
theorem field_inj {α : Type} {stop : α} {x y rest rest' : List α} (notIn : stop ∉ x) (notIn' : stop ∉ y)
    (same : x ++ stop :: rest = y ++ stop :: rest') : x = y ∧ rest = rest' := by
  induction x generalizing y with
  | nil =>
    cases y with
    | nil => exact ⟨rfl, (List.cons.inj same).2⟩
    | cons b y =>
      obtain ⟨rfl, -⟩ := List.cons.inj same
      exact absurd List.mem_cons_self notIn'
  | cons a x ih =>
    cases y with
    | nil =>
      obtain ⟨rfl, -⟩ := List.cons.inj same
      exact absurd List.mem_cons_self notIn
    | cons b y =>
      obtain ⟨rfl, tails⟩ := List.cons.inj same
      obtain ⟨rfl, rests⟩ := ih (fun member => notIn (List.mem_cons_of_mem _ member))
        (fun member => notIn' (List.mem_cons_of_mem _ member)) tails
      exact ⟨rfl, rests⟩

theorem bar_notMem_decimal (n : Nat) : bar ∉ decimal n := by
  intro member
  have digit := decimal_digits n bar member
  exact absurd digit (by decide)

/-- Fragments of two chunk sizes are different, even if there are as many of them. -/
theorem fragmentBytes_inj {id k size size' : Nat} {bytes : List UInt8}
    (same : fragmentBytes id size bytes k = fragmentBytes id size' bytes k)
    (count : pieceCount size bytes.length = pieceCount size' bytes.length)
    (short : size < bytes.length) (short' : size' < bytes.length) : size = size' := by
  simp only [fragmentBytes, markerPrint, count, List.append_assoc, List.append_cancel_left_eq,
    List.cons_append, List.cons.injEq, true_and] at same
  obtain ⟨offsets, rest⟩ := field_inj (bar_notMem_decimal _) (bar_notMem_decimal _) same
  rcases Nat.eq_zero_or_pos k with rfl | positive
  · have pieces : (piece size bytes 0).length = (piece size' bytes 0).length := by
      have lengths := congrArg List.length rest
      simp only [List.length_append] at lengths
      omega
    rw [piece_length, piece_length] at pieces
    omega
  · have equal : k * size = k * size' := by
      rw [← digitsValue_decimal (k * size), offsets, digitsValue_decimal]
    exact Nat.eq_of_mul_eq_mul_left positive equal

/-- A process that is starting reserves room for the same markers exactly if
the two estimates of the number of parts have equally many digits. -/
theorem startSize_eq_iff (small : o.bytes.length < 2 ^ 32) : o.startSize = o.size ↔
    numDigits (pieceCount (o.maxLength - 63) o.bytes.length) =
      numDigits (pieceCount o.maxLength o.bytes.length) := by
  have room := o.room
  have estimate := pieceCount_le o.bytes.length (show 0 < o.maxLength - 63 by omega)
  have estimate' := pieceCount_le o.bytes.length (show 0 < o.maxLength by omega)
  have marker := markerMaxSizeBytes_le (show pieceCount (o.maxLength - 63) o.bytes.length < 2 ^ 32 by
    omega) small
  have marker' := markerMaxSizeBytes_le (show pieceCount o.maxLength o.bytes.length < 2 ^ 32 by omega)
    small
  simp only [Outgoing.startSize, Outgoing.size, chunkSize, Nat.sub_zero, markerMaxSizeBytes_eq] at *
  omega

/-! ## Loading -/

/-- The key of the row that is loaded. -/
def keyOf (p : PendingSent) : Key := ⟨true, p.friendNumber, p.id⟩

/-- The message a row becomes once it is split again, unless it is discarded. -/
def resume (p : PendingSent) (m : MsgOutbound) : Option MsgOutbound :=
  let numConfirmed := (p.confirmed.filter (· ≠ 0)).length
  if m.numParts = p.numParts ∧ m.numParts = p.confirmed.length ∧ p.numConfirmed = numConfirmed ∧
      numConfirmed < p.numParts then
    some { m with
      fragments := List.zipWith restoreConfirmed m.fragments p.confirmed
      numConfirmed, friendNumber := p.friendNumber, fromDb := true }
  else none

def loaded (w : World) (p : PendingSent) : Option MsgOutbound :=
  (splitMessage 0 p.message w.params.maxMessageLength p.id).toOption.bind (resume p)

/-- What loading a row does to the process. -/
def settle (s : State) (p : PendingSent) : Option MsgOutbound → State
  | none => discardPending s p
  | some m => { s.alloc m with msgsOutbound := msgsOutboundLink s.msgsOutbound s.fresh }

theorem settle_marker {s : State} {p : PendingSent} {found : Option MsgOutbound} :
    (settle s p found).markerMaxSizeEver = s.markerMaxSizeEver := by
  cases found <;> rfl

/-- A message of any length is split, where the limit leaves room for a marker. -/
theorem splitMessage_returns {markerMaxSizeEver maxLength id : Nat} {message : List UInt8}
    (reserved : markerMaxSizeEver ≤ 63) (room : 63 < maxLength) (small : maxLength < 2 ^ 32) :
    ∃ m, splitMessage markerMaxSizeEver message maxLength id = .ok m := by
  simp only [splitMessage]
  rw [toSize_sub (by omega) (by omega), if_neg (by omega)]
  generalize toSize ((message.length : Int) + maxLength - markerMaxSizeEver - 1) /
    (maxLength - markerMaxSizeEver) = estimate
  have marker := markerMaxSizeBytes_le (toUnsigned_lt estimate) (toUnsigned_lt message.length)
  rw [toSize_sub (by omega) (by omega), if_neg (by omega)]
  exact ⟨_, rfl⟩

variable {w : World} {s s' : State} {p : PendingSent}

/-- Loading a row links the message it becomes, or drops it. -/
theorem loadPendingSentMessage_settles {m : MsgOutbound}
    (split : splitMessage s.markerMaxSizeEver p.message w.params.maxMessageLength p.id = .ok m) :
    loadPendingSentMessage w s p = .ok (settle s p (resume p m)) := by
  simp only [loadPendingSentMessage, split, resume, bind, Except.bind, pure, Except.pure]
  by_cases parts : m.numParts = p.numParts ∧ m.numParts = p.confirmed.length
  · rw [if_neg (by tauto)]
    by_cases count : p.numConfirmed = (p.confirmed.filter (· ≠ 0)).length
    · by_cases left : (p.confirmed.filter (· ≠ 0)).length < p.numParts
      · rw [if_neg (by omega), if_pos left, if_pos ⟨parts.1, parts.2, count, left⟩]
        rfl
      · rw [if_neg left, ite_self, if_neg (fun all => left all.2.2.2)]
        rfl
    · rw [if_pos (.inl count), if_neg (fun all => count all.2.2.1)]
      rfl
  · rw [if_pos (by tauto), if_neg (fun all => parts ⟨all.1, all.2.1⟩)]
    rfl

theorem loadPendingSentMessage_eq {m : MsgOutbound} (starting : s.markerMaxSizeEver = 0)
    (split : splitMessage 0 p.message w.params.maxMessageLength p.id = .ok m) :
    loadPendingSentMessage w s p = .ok (settle s p (loaded w p)) := by
  rw [loaded, split]
  exact loadPendingSentMessage_settles (starting ▸ split)

theorem load_all {ps : List PendingSent} (starting : s.markerMaxSizeEver = 0)
    (splits : ∀ p ∈ ps, ∃ m, splitMessage 0 p.message w.params.maxMessageLength p.id = .ok m) :
    ps.foldlM (loadPendingSentMessage w) s = .ok (ps.foldl (fun s p => settle s p (loaded w p)) s) := by
  induction ps generalizing s with
  | nil => rfl
  | cons p ps ih =>
    obtain ⟨m, split⟩ := splits p List.mem_cons_self
    rw [List.foldlM_cons, loadPendingSentMessage_eq starting split, List.foldl_cons]
    exact ih (settle_marker.trans starting) fun q member => splits q (List.mem_cons_of_mem p member)

/-- A loop over the rows that ends has settled each of them. -/
theorem loads_settled {ps : List PendingSent} (starting : s.markerMaxSizeEver = 0)
    (ran : ps.foldlM (loadPendingSentMessage w) s = .ok s') :
    s' = ps.foldl (fun s p => settle s p (loaded w p)) s := by
  induction ps generalizing s with
  | nil => exact (Except.ok.inj ran).symm
  | cons p ps ih =>
    rw [List.foldlM_cons] at ran
    obtain ⟨s₁, loads, ran⟩ := bind_ok.mp ran
    obtain ⟨m, split, _⟩ := bind_ok.mp loads
    rw [starting] at split
    rw [loadPendingSentMessage_eq starting split] at loads
    cases loads
    exact ih (settle_marker.trans starting) ran

/-- The state in which `loadPendingSentMessages` begins. -/
def loadingState (w : World) (db : Db) : State where
  receipts := receiptsInitialize
  lastReceipt := w.params.receiptRangeLo
  db := dbLock db

theorem started_settled {db : Db} (started : initializeBoth w { db } = .ok s) : ∃ s₁,
    s₁ = (stmtSelectFragmentedOutboundPending db).foldl (fun s p => settle s p (loaded w p))
      (loadingState w db) ∧
    s = { s₁ with
      db := dbUnlock s₁.db
      markerMaxSizeEver := markerMaxSizeBytes (2 ^ 31 - 1) (2 ^ 31 - 1) } := by
  obtain ⟨s₂, loads, started⟩ := bind_ok.mp started
  obtain ⟨s₁, folded, loads⟩ := bind_ok.mp loads
  cases loads
  cases started
  exact ⟨s₁, loads_settled (s := loadingState w db) rfl folded, rfl⟩

/-- What has become of these rows of a store that was `db` before. -/
structure Adopted (w : World) (db : Db) (ps : List PendingSent) (s : State) : Prop where
  below : ∀ a, s.fresh ≤ a → s.heap a = none
  linked : ∀ a ∈ s.msgsOutbound, ∃ p ∈ ps, ∃ m, loaded w p = some m ∧ s.heap a = some m
  found : ∀ p ∈ ps, ∀ m, loaded w p = some m → ∃ a ∈ s.msgsOutbound, s.heap a = some m
  kept : ∀ key, (∀ p ∈ ps, loaded w p = none → keyOf p ≠ key) → rows s.db key = rows db key
  dropped : ∀ p ∈ ps, loaded w p = none → (rows s.db (keyOf p)).dataRow = none

theorem adopted_settle {w : World} {db : Db} {ps : List PendingSent} {s : State} {p : PendingSent}
    (adopted : Adopted w db ps s) : Adopted w db (ps ++ [p]) (settle s p (loaded w p)) := by
  have earlier : ∀ {q}, q ∈ ps ++ [p] → q ∈ ps ∨ q = p := by
    intro q member
    simpa using member
  cases decided : loaded w p with
  | none =>
    refine ⟨adopted.below, ?_, ?_, ?_, ?_⟩
    · intro a member
      obtain ⟨q, inside, found⟩ := adopted.linked a member
      exact ⟨q, List.mem_append_left _ inside, found⟩
    · intro q member m kept
      rcases earlier member with inside | rfl
      · exact adopted.found q inside m kept
      · rw [decided] at kept
        cases kept
    · intro key others
      have notThis := others p (by simp) decided
      have before := adopted.kept key fun q inside => others q (List.mem_append_left _ inside)
      exact (rows_cleared key).trans ((if_neg (Ne.symm notThis)).trans before)
    · intro q member none
      have cleared := @rows_cleared s.db p.friendNumber p.id (keyOf q)
      change (rows (dbClearOutboundPending s.db p.friendNumber p.id) (keyOf q)).dataRow = _
      rw [cleared]
      split
      · rfl
      · rename_i other
        rcases earlier member with inside | rfl
        · exact adopted.dropped q inside none
        · exact absurd rfl other
  | some m =>
    have free : ∀ {a m'}, s.heap a = some m' → (settle s p (some m)).heap a = some m' := by
      intro a m' here
      have other : a ≠ s.fresh := by
        rintro rfl
        rw [adopted.below _ (Nat.le_refl _)] at here
        cases here
      exact (Function.update_of_ne other _ _).trans here
    have own : (settle s p (some m)).heap s.fresh = some m := Function.update_self ..
    have members : ∀ a, a ∈ (settle s p (some m)).msgsOutbound ↔ a = s.fresh ∨ a ∈ s.msgsOutbound := by
      intro a
      change a ∈ msgsOutboundLink s.msgsOutbound s.fresh ↔ _
      unfold msgsOutboundLink
      split <;> simp_all [or_left_comm]
    refine ⟨?_, ?_, ?_, ?_, ?_⟩
    · intro a above
      have other : a ≠ s.fresh := by
        rintro rfl
        exact absurd above (Nat.not_succ_le_self _)
      exact (Function.update_of_ne other _ _).trans (adopted.below a (Nat.le_of_succ_le above))
    · intro a member
      rcases (members a).mp member with rfl | inside
      · exact ⟨p, by simp, m, decided, own⟩
      · obtain ⟨q, inside, m', kept, here⟩ := adopted.linked a inside
        exact ⟨q, List.mem_append_left _ inside, m', kept, free here⟩
    · intro q member m' kept
      rcases earlier member with inside | rfl
      · obtain ⟨a, linked, here⟩ := adopted.found q inside m' kept
        exact ⟨a, (members a).mpr (.inr linked), free here⟩
      · rw [decided] at kept
        cases kept
        exact ⟨s.fresh, (members _).mpr (.inl rfl), own⟩
    · intro key others
      exact adopted.kept key fun q inside => others q (List.mem_append_left _ inside)
    · intro q member none
      rcases earlier member with inside | rfl
      · exact adopted.dropped q inside none
      · rw [decided] at none
        cases none

theorem adopted_all {w : World} {db : Db} (rest : List PendingSent) :
    ∀ {ps : List PendingSent} {s : State}, Adopted w db ps s →
      Adopted w db (ps ++ rest) (rest.foldl (fun s p => settle s p (loaded w p)) s) := by
  induction rest with
  | nil =>
    intro ps s adopted
    rwa [List.append_nil]
  | cons p rest ih =>
    intro ps s adopted
    have next := ih (adopted_settle (p := p) adopted)
    rwa [List.append_assoc] at next

theorem adopted_of_started {db : Db} (started : initializeBoth w { db } = .ok s) :
    Adopted w db (stmtSelectFragmentedOutboundPending db) s := by
  have empty : Adopted w db [] (loadingState w db) := by
    refine ⟨fun _ _ => rfl, fun _ member => ?_, fun _ member => ?_, fun _ _ => rfl, fun _ member => ?_⟩
    all_goals cases member
  obtain ⟨s₁, settled, rfl⟩ := started_settled started
  have adopted := adopted_all (stmtSelectFragmentedOutboundPending db) empty
  rw [List.nil_append, ← settled] at adopted
  exact ⟨adopted.below, adopted.linked, adopted.found, adopted.kept, adopted.dropped⟩

/-- `initialize` over any store returns, and every row was adopted or dropped. -/
theorem initializeBoth_adopted (room : 63 < w.params.maxMessageLength)
    (limitSmall : w.params.maxMessageLength < 2 ^ 32) (db : Db) : ∃ s,
      initializeBoth w { db } = .ok s ∧ Adopted w db (stmtSelectFragmentedOutboundPending db) s := by
  have loads : (stmtSelectFragmentedOutboundPending db).foldlM (loadPendingSentMessage w)
      (loadingState w db) = .ok _ := load_all rfl fun p _ => splitMessage_returns (Nat.zero_le _) room limitSmall
  have started : initializeBoth w { db } = .ok _ := bind_ok.mpr ⟨_, bind_ok.mpr ⟨_, loads, rfl⟩, rfl⟩
  exact ⟨_, started, adopted_of_started started⟩

/-! ## The row of the message -/

/-- The two rows as the callback gets them. -/
def pendingOf (key : Key) (row : MetaRow) (data : DataRow) : PendingSent where
  friendNumber := key.friendId
  type := row.type
  id := key.fragsId
  tm1 := row.timestampFirst
  tm2 := row.timestampLast
  numConfirmed := toUnsigned row.fragsDone
  numParts := toUnsigned row.fragsNum
  message := data.message
  confirmed := data.confirmed.getD []
  receipt := data.receipt.getD 0

theorem mem_pending {db : Db} {p : PendingSent} : p ∈ stmtSelectFragmentedOutboundPending db ↔
    ∃ row data, rows db (keyOf p) = ⟨some row, some data⟩ ∧ p = pendingOf (keyOf p) row data := by
  rw [stmtSelectFragmentedOutboundPending, List.mem_filterMap]
  constructor
  · rintro ⟨⟨⟨outbound, friendId, fragsId⟩, row⟩, member, selected⟩
    cases outbound with
    | false => cases selected
    | true =>
      obtain ⟨data, dataFound, rfl⟩ := Option.map_eq_some_iff.mp selected
      have metaFound := AList.mem_lookup_iff.mpr member
      exact ⟨row, data, by rw [rows, Rows.mk.injEq]; exact ⟨metaFound, dataFound⟩, rfl⟩
  · rintro ⟨row, data, found, shape⟩
    simp only [rows, Rows.mk.injEq] at found
    refine ⟨⟨keyOf p, row⟩, AList.mem_lookup_iff.mp found.1, ?_⟩
    dsimp only
    rw [if_pos (show (keyOf p).outbound = true from rfl), found.2]
    exact congrArg some shape.symm

/-- The fragment of a restored message. -/
theorem part_restored {id size : Nat} {bytes blob : List UInt8} {confirmed : Bool} {k : Nat}
    (flag : blob[k]? = some (if confirmed then 1 else 0)) (inside : k < pieceCount size bytes.length) :
    (List.zipWith restoreConfirmed (splitInto id size bytes).fragments blob).getD k {} =
      if confirmed then { fragmentAt id size bytes k with confirmed := true, data := none }
      else fragmentAt id size bytes k := by
  have here : (splitInto id size bytes).fragments[k]? = some (fragmentAt id size bytes k) := by
    simp [splitInto, inside]
  rw [List.getD_eq_getElem?_getD, List.getElem?_zipWith, here, flag]
  cases confirmed <;> rfl

theorem part_splitInto {id size k : Nat} {bytes : List UInt8}
    (inside : k < pieceCount size bytes.length) :
    part (splitInto id size bytes) k = fragmentAt id size bytes k := by
  simp [part, splitInto, inside, List.getD_eq_getElem?_getD]

theorem pending_unique {db : Db} {p q : PendingSent} (first : p ∈ stmtSelectFragmentedOutboundPending db)
    (second : q ∈ stmtSelectFragmentedOutboundPending db) (same : keyOf p = keyOf q) : p = q := by
  obtain ⟨row, data, found, shape⟩ := mem_pending.mp first
  obtain ⟨row', data', found', shape'⟩ := mem_pending.mp second
  rw [same, found', Rows.mk.injEq] at found
  rw [shape, shape', same, Option.some.inj found.1, Option.some.inj found.2]

theorem loaded_named {w : World} {p : PendingSent} {m : MsgOutbound} (resumed : loaded w p = some m) :
    m.friendNumber = p.friendNumber ∧ m.id = p.id := by
  obtain ⟨split, ran, accepted⟩ := Option.bind_eq_some_iff.mp resumed
  have unsent : Unsent p.id split := by
    cases cut : splitMessage 0 p.message w.params.maxMessageLength p.id with
    | error _ =>
      rw [cut] at ran
      cases ran
    | ok m' =>
      rw [cut] at ran
      obtain rfl := Option.some.inj ran
      exact unsent_of_split cut
  unfold resume at accepted
  dsimp only at accepted
  split at accepted
  · obtain rfl := Option.some.inj accepted
    exact ⟨rfl, unsent.id_eq⟩
  · cases accepted

section Pending
variable {w : World} (sameLimit : w.params.maxMessageLength = o.maxLength)
  (rowsOf : RowsOf limit o parts (rows db o.key)) {k : Nat}
  (inside : k < o.numParts) (missing : k + 1 ∉ parts)
include sameLimit rowsOf inside missing

/-- The row is loaded exactly if there are as many parts as before. -/
theorem loaded_pending : ∃ p ∈ stmtSelectFragmentedOutboundPending db, keyOf p = o.key ∧
    (pieceCount o.startSize o.bytes.length ≠ o.numParts → loaded w p = none) ∧
    (pieceCount o.startSize o.bytes.length = o.numParts → ∃ m, loaded w p = some m ∧
      m.friendNumber = o.friendNumber ∧ m.id = o.id ∧ m.type = 0 ∧ m.receipt = 0 ∧
      m.numParts = o.numParts ∧ ∀ j < o.numParts, part m j =
        if j + 1 ∈ parts then { fragmentAt o.id o.startSize o.bytes j with confirmed := true, data := none }
        else fragmentAt o.id o.startSize o.bytes j) := by
  obtain ⟨small, ⟨row, metaFound, done, num⟩, data, blob, dataFound, message, confirmed, length, flags,
    count⟩ := rowsOf
  have bound : limit.val < 2 ^ 31 := limit.property
  have numParts := Outgoing.numParts_le (o := o) (by omega)
  have fewer : parts.card < o.numParts := by
    rw [← count, ← length]
    refine Nat.lt_of_le_of_ne List.countP_le_length fun all => ?_
    have set_ := List.countP_eq_length.mp all 0 (List.mem_of_getElem? ((flags k inside).trans (by
      rw [if_neg missing])))
    simp at set_
  have shape : rows db o.key = ⟨some row, some data⟩ := by rw [← metaFound, ← dataFound]
  have selected : pendingOf o.key row data ∈ stmtSelectFragmentedOutboundPending db :=
    mem_pending.mpr ⟨row, data, shape, rfl⟩
  have numConfirmed : toUnsigned row.fragsDone = parts.card := by
    rw [done, toUnsigned_of_lt (by omega)]
  have numAll : toUnsigned row.fragsNum = o.numParts := by
    rw [num, toUnsigned_of_lt (by omega)]
  have split := @splitMessage_eq 0 o.maxLength o.id o.bytes (by omega) o.room o.maxLengthSmall (by omega)
  have ran : loaded w (pendingOf o.key row data) =
      resume (pendingOf o.key row data) (splitInto o.id o.startSize o.bytes) := by
    rw [loaded, sameLimit]
    simp only [pendingOf, message, Outgoing.key, split]
    rfl
  have filtered : (blob.filter (· ≠ 0)).length = parts.card := by
    rw [← List.countP_eq_length_filter, count]
  refine ⟨_, selected, rfl, ?_, ?_⟩
  · intro different
    rw [ran, resume, if_neg]
    intro all
    exact different (all.1.trans numAll)
  · intro same
    have accepted : resume (pendingOf o.key row data) (splitInto o.id o.startSize o.bytes) = some {
        splitInto o.id o.startSize o.bytes with
        fragments := List.zipWith restoreConfirmed (splitInto o.id o.startSize o.bytes).fragments blob
        numConfirmed := parts.card, friendNumber := o.friendNumber, fromDb := true } := by
      simp only [resume, pendingOf, confirmed, Option.getD_some, filtered, numConfirmed, numAll, length]
      rw [if_pos ⟨same, same, trivial, fewer⟩]
      rfl
    refine ⟨_, ran.trans accepted, rfl, rfl, rfl, rfl, same, ?_⟩
    intro j insideJ
    have flag : blob[j]? = some (if decide (j + 1 ∈ parts) = true then 1 else 0) := by
      rw [flags j insideJ]
      simp
    refine (part_restored flag (same ▸ insideJ)).trans ?_
    simp

/-- What is in the list afterwards under the message's friend and id. -/
theorem restored_iff (small : o.bytes.length < 2 ^ 32) {s : State}
    (adopted : Adopted w db (stmtSelectFragmentedOutboundPending db) s) :
    Restored o parts s ↔ o.type = 0 ∧ o.receipt = 0 ∧ o.startSize = o.size := by
  obtain ⟨p, selected, ofKey, discarded, kept⟩ := loaded_pending sameLimit rowsOf inside missing
  have only : ∀ q ∈ stmtSelectFragmentedOutboundPending db, keyOf q = o.key → q = p := by
    intro q member same
    exact pending_unique member selected (same.trans ofKey.symm)
  have long := o.long
  constructor
  · rintro ⟨stored, a, m, msg, linked, here, split, friend, id, type, receipt, _, parts_⟩
    obtain ⟨q, member, m', resumed, here'⟩ := adopted.linked a linked
    obtain rfl := Option.some.inj (here.symm.trans here')
    obtain ⟨friend', id'⟩ := loaded_named resumed
    obtain rfl := only q member (by rw [keyOf, ← friend', ← id', friend, id, Outgoing.key])
    have count : pieceCount o.startSize o.bytes.length = o.numParts := by
      refine Decidable.not_not.mp fun different => ?_
      rw [discarded different] at resumed
      cases resumed
    obtain ⟨m', resumed', _, _, type', receipt', _, shown⟩ := kept count
    obtain rfl := Option.some.inj (resumed.symm.trans resumed')
    refine ⟨type.symm.trans type', receipt.symm.trans receipt', ?_⟩
    obtain rfl := (Outgoing.splitAs_iff small).mp split
    have data := ((parts_ k inside).2 missing).1
    rw [shown k inside, if_neg missing, part_splitInto inside] at data
    exact fragmentBytes_inj (Option.some.inj data) count (Nat.lt_of_le_of_lt (Nat.sub_le ..) long)
      (Nat.lt_of_le_of_lt (Nat.sub_le ..) long)
  · rintro ⟨type, receipt, sameSize⟩
    have count : pieceCount o.startSize o.bytes.length = o.numParts := by
      rw [sameSize]
      rfl
    obtain ⟨m, resumed, friend, id, type', receipt', numParts, shown⟩ := kept count
    obtain ⟨a, linked, here⟩ := adopted.found p selected m resumed
    have untouched : rows s.db o.key = rows db o.key := by
      refine adopted.kept _ fun q member none same => ?_
      rw [only q member same, resumed] at none
      cases none
    obtain ⟨data, blob, dataFound, _⟩ := rowsOf.dataRow
    refine ⟨by rw [untouched, dataFound]; rfl, a, m, splitInto o.id o.size o.bytes, linked, here,
      (Outgoing.splitAs_iff small).mpr rfl, friend, id, type'.trans type.symm,
      receipt'.trans receipt.symm, numParts, ?_⟩
    intro j insideJ
    rw [shown j insideJ, part_splitInto insideJ, sameSize]
    split
    · rename_i done
      exact ⟨⟨fun _ => done, fun _ => rfl⟩, fun absent => absurd done absent⟩
    · rename_i absent
      exact ⟨⟨fun set_ => (Bool.false_ne_true set_).elim, fun done => absurd done absent⟩,
        fun _ => ⟨rfl, rfl⟩⟩

end Pending

/-- What a starting process makes of a long message of which not every part was
confirmed: the same message exactly if its type and the client's number are
the zeros a new record has, and both chunk sizes agree. -/
theorem restart_restores_iff {w : World} (recorded : Recorded limit o parts db)
    (sameLimit : w.params.maxMessageLength = o.maxLength) {msg : MsgOutbound} (split : o.SplitAs msg)
    {partNo : Nat} (positive : 0 < partNo) (inside : partNo ≤ msg.numParts) (missing : partNo ∉ parts) :
    ∃ s, initializeBoth w { db } = .ok s ∧ (Restored o parts s ↔ o.type = 0 ∧ o.receipt = 0 ∧
      numDigits (pieceCount (o.maxLength - 63) o.bytes.length) =
        numDigits (pieceCount o.maxLength o.bytes.length)) := by
  have rowsOf := rowsOf_recorded recorded
  have bound : limit.val < 2 ^ 31 := limit.property
  have small : o.bytes.length < 2 ^ 32 := by
    have := rowsOf.small
    omega
  have room : 63 < w.params.maxMessageLength := sameLimit ▸ o.room
  have limitSmall : w.params.maxMessageLength < 2 ^ 32 := sameLimit ▸ o.maxLengthSmall
  obtain ⟨s, ran, adopted⟩ := initializeBoth_adopted room limitSmall db
  obtain rfl := (Outgoing.splitAs_iff small).mp split
  have insideK : partNo - 1 < o.numParts := by
    change partNo ≤ o.numParts at inside
    omega
  have missingK : partNo - 1 + 1 ∉ parts := by
    rwa [Nat.sub_add_cancel positive]
  refine ⟨s, ran, ?_⟩
  rw [restored_iff sameLimit rowsOf insideK missingK small adopted, startSize_eq_iff small]

/-- A hundred and one bytes in two fragments, under this number for the client. -/
def twoParts (receipt : Nat) : Outgoing where
  friendNumber := 7
  id := 1234567890123
  type := 0
  receipt := receipt
  maxLength := 100
  bytes := List.replicate 101 65
  room := by decide
  maxLengthSmall := by decide
  long := by decide

/-- What `splitMessage` makes of them, and the store once they are recorded. -/
def recordTwoParts (receipt : Nat) : Except Fault (MsgOutbound × Db) := do
  let o := twoParts receipt
  let msg ← splitMessage (markerMaxSizeBytes (2 ^ 31 - 1) (2 ^ 31 - 1)) o.bytes o.maxLength o.id
  let db ← dbInsertOutboundMessage defaultLimit {} o.friendNumber o.type o.id o.id msg.numParts o.bytes
    o.receipt
  pure (msg, db)

theorem recorded_twoParts {receipt : Nat} {msg : MsgOutbound}
    (ran : recordTwoParts receipt = .ok (msg, db)) :
    (twoParts receipt).SplitAs msg ∧ Recorded defaultLimit (twoParts receipt) ∅ db := by
  obtain ⟨msg', split, ran⟩ := bind_ok.mp ran
  obtain ⟨db', inserted, ran⟩ := bind_ok.mp ran
  cases ran
  exact ⟨split, .inserted split inserted⟩

theorem any_toOption {α : Type} {ran : Except Fault α} {check : α → Bool} :
    ran.toOption.any check = true ↔ ∃ a, ran = .ok a ∧ check a = true := by
  cases ran <;> simp [Except.toOption]

/-- With the zeros of a new record, and one part confirmed, everything is restored. -/
theorem restart_restores_zeros : ∃ db s, Recorded defaultLimit (twoParts 0) {1} db ∧
    initializeBoth (scripted { maxMessageLength := 100 } [] []) { db } = .ok s ∧
    Restored (twoParts 0) {1} s := by
  have ran : (recordTwoParts 0).toOption.any (fun r => r.1.numParts = 2 ∧
      (dbOutboundPartConfirmed r.2 7 1234567890123 1 5).toOption.any fun _ => true) = true := by
    decide +kernel
  obtain ⟨⟨msg, db⟩, recorded, checked⟩ := any_toOption.mp ran
  obtain ⟨(numParts : msg.numParts = 2), confirmed⟩ := of_decide_eq_true checked
  obtain ⟨db', confirmed, -⟩ := any_toOption.mp confirmed
  obtain ⟨split, inserted⟩ := recorded_twoParts recorded
  have recorded : Recorded defaultLimit (twoParts 0) {1} db' :=
    .confirmed inserted split (by simp) (by decide) (by omega) confirmed
  obtain ⟨s, started, restored⟩ := restart_restores_iff
    (w := scripted { maxMessageLength := 100 } [] []) recorded rfl split (show 0 < 2 by decide)
    (by omega) (by decide)
  exact ⟨db', s, recorded, started, restored.mpr ⟨rfl, rfl, by decide +kernel⟩⟩

/-- A message with a number from the client's range comes back without it. -/
theorem restart_forgets_receipt : ∃ db s msg, Recorded defaultLimit (twoParts 0x70000001) ∅ db ∧
    (twoParts 0x70000001).SplitAs msg ∧ 0 < msg.numParts ∧
    initializeBoth (scripted { maxMessageLength := 100 } [] []) { db } = .ok s ∧
    ¬ Restored (twoParts 0x70000001) ∅ s := by
  have ran : (recordTwoParts 0x70000001).toOption.any (fun r => 0 < r.1.numParts ∧
      (initializeBoth (scripted { maxMessageLength := 100 } [] []) { db := r.2 }).toOption.any fun s =>
        s.msgsOutbound.all fun a => (s.heap a).all (·.receipt = 0)) = true := by
    decide +kernel
  obtain ⟨⟨msg, db⟩, recorded, checked⟩ := any_toOption.mp ran
  obtain ⟨numParts, started⟩ := of_decide_eq_true checked
  obtain ⟨s, started, zeros⟩ := any_toOption.mp started
  obtain ⟨split, inserted⟩ := recorded_twoParts recorded
  refine ⟨db, s, msg, inserted, split, numParts, started, ?_⟩
  rintro ⟨-, a, m, -, linked, here, -, -, -, -, receipt, -⟩
  have zero := List.all_eq_true.mp zeros a linked
  rw [here] at zero
  have forgotten : m.receipt = 0 := by simpa using zero
  rw [forgotten] at receipt
  exact absurd receipt (by decide)

end Defragmenter.Restart
