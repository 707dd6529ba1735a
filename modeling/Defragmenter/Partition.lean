import Defragmenter.Restart

/-! Splitting is a partition. The room for the marker is estimated before the
number of parts is known; with the `markerMaxSizeEver` that `initialize` sets
the estimate is never too small. A process that is starting loads its messages
before that, with zero, and then the estimate can be short by a digit. -/
namespace Defragmenter.Partition
open Marker Tiling Split Database InboundStore OutboundStore Sender Moves Restart Decimal

/-- The local variable of `splitMessage`, and the size of its buffer less one. -/
def maxMarker (markerMaxSizeEver maxLength length : Nat) : Nat :=
  markerMaxSizeBytes (toUnsigned (toSize (length + maxLength - markerMaxSizeEver - 1) /
    toSize (maxLength - markerMaxSizeEver) : Nat)) (toUnsigned length)

/-- `splitMessage` cut the message into these payloads. -/
structure Partitions (markerMaxSizeEver maxLength id : Nat) (message : List UInt8) (m : MsgOutbound)
    (payloads : List (List UInt8)) : Prop where
  count : m.fragments.length = m.numParts ∧ payloads.length = m.numParts
  /-- The loop fills the array of fragments and does not go past it. -/
  filled : splitLoop (maxLength - maxMarker markerMaxSizeEver maxLength message.length) id m.numParts
    message.length message.length 1 0 message.length message = m.fragments
  whole : payloads.flatten = message
  nonempty : ∀ payload ∈ payloads, payload ≠ []
  fragment : ∀ k payload, payloads[k]? = some payload →
    let marker := markerPrint id (k + 1) m.numParts (payloads.take k).flatten.length message.length
    (part m k).data = some (marker ++ payload) ∧ (part m k).length = marker.length + payload.length ∧
      (part m k).length ≤ maxLength ∧ marker.length ≤ maxMarker markerMaxSizeEver maxLength message.length

/-- A fragment begins with this marker. -/
def BeginsWith (m : MsgOutbound) (length k : Nat) (marker : List UInt8) : Prop :=
  ∃ off payload, marker = markerPrint m.id (k + 1) m.numParts off length ∧
    (part m k).data = some (marker ++ payload)

/-- Every marker that `splitMessage` prints fits the buffer, and every fragment the packet. -/
def Fits (markerMaxSizeEver : Nat) (message : List UInt8) (maxLength id : Nat) : Prop :=
  ∀ m, splitMessage markerMaxSizeEver message maxLength id = .ok m → ∀ k < m.numParts,
    (part m k).length ≤ maxLength ∧ ∀ marker, BeginsWith m message.length k marker →
      marker.length ≤ maxMarker markerMaxSizeEver maxLength message.length

/-! ## The marker and its room -/

section Admitted
variable {markerMaxSizeEver maxLength length id k : Nat} {message : List UInt8}
  (reserved : markerMaxSizeEver ≤ 63) (limit : 63 < maxLength) (limitSmall : maxLength < 2 ^ 32)
include reserved limit limitSmall

theorem maxMarker_eq (size : length < 2 ^ 32) : maxMarker markerMaxSizeEver maxLength length =
    markerMaxSizeBytes (pieceCount (maxLength - markerMaxSizeEver) length) length := by
  have count := pieceCount_le length (show 0 < maxLength - markerMaxSizeEver by omega)
  have room : toSize ((maxLength : Int) - markerMaxSizeEver) = maxLength - markerMaxSizeEver :=
    toSize_sub (by omega) (by omega)
  have estimate : toSize ((length : Int) + maxLength - markerMaxSizeEver - 1) =
      length + (maxLength - markerMaxSizeEver) - 1 := by
    unfold toSize
    omega
  rw [maxMarker, room, estimate, toUnsigned_of_lt size]
  congr 1
  exact toUnsigned_of_lt (Nat.lt_of_le_of_lt count size)

/-- The room for the marker and that for the payload are the packet. -/
theorem maxMarker_add_chunkSize (size : length < 2 ^ 32) :
    maxMarker markerMaxSizeEver maxLength length + chunkSize markerMaxSizeEver maxLength length = maxLength := by
  have count := pieceCount_le length (show 0 < maxLength - markerMaxSizeEver by omega)
  have marker := markerMaxSizeBytes_le (show pieceCount (maxLength - markerMaxSizeEver) length < 2 ^ 32 by omega) size
  rw [maxMarker_eq reserved limit limitSmall size, chunkSize]
  omega

end Admitted

section Pieces
variable {markerMaxSizeEver maxLength id size k : Nat} {message : List UInt8}

/-- The marker of fragment `k`. -/
def printed (id size : Nat) (message : List UInt8) (k : Nat) : List UInt8 :=
  markerPrint id (k + 1) (pieceCount size message.length) (k * size) message.length

theorem printed_length : (printed id size message k).length = numDigits id + numDigits (k + 1) +
    numDigits (pieceCount size message.length) + numDigits (k * size) + numDigits message.length + 10 :=
  markerPrint_length ..

/-- A fragment begins with one marker. -/
theorem beginsWith_iff {marker : List UInt8} (inside : k < pieceCount size message.length) :
    BeginsWith (splitInto id size message) message.length k marker ↔ marker = printed id size message k := by
  rw [BeginsWith, part_splitInto inside]
  constructor
  · rintro ⟨off, payload, rfl, same⟩
    have same : fragmentBytes id size message k = _ := Option.some.inj same
    simp only [fragmentBytes, markerPrint, splitInto, List.append_assoc, List.append_cancel_left_eq,
      List.cons_append, List.cons.injEq, true_and] at same
    obtain ⟨offsets, _⟩ := field_inj (bar_notMem_decimal _) (bar_notMem_decimal _) same
    have equal : k * size = off := by
      rw [← digitsValue_decimal (k * size), offsets, digitsValue_decimal]
    rw [printed, equal]
    rfl
  · rintro rfl
    exact ⟨k * size, piece size message k, rfl, rfl⟩

/-- Later markers are no shorter. -/
theorem printed_mono {j : Nat} (le : k ≤ j) :
    (printed id size message k).length ≤ (printed id size message j).length := by
  have partNo := numDigits_mono (show k + 1 ≤ j + 1 by omega)
  have off := numDigits_mono (Nat.mul_le_mul_right size le)
  rw [printed_length, printed_length]
  omega

end Pieces

section Admitted
variable {markerMaxSizeEver maxLength id k : Nat} {message : List UInt8}
  (reserved : markerMaxSizeEver ≤ 63) (limit : 63 < maxLength) (limitSmall : maxLength < 2 ^ 32)
  (small : message.length < 2 ^ 32)
include reserved limit limitSmall small

/-- A fragment whose marker fits is no longer than a packet. -/
theorem fragmentAt_le (fits : (printed id (chunkSize markerMaxSizeEver maxLength message.length) message k).length ≤
      maxMarker markerMaxSizeEver maxLength message.length) :
    (fragmentAt id (chunkSize markerMaxSizeEver maxLength message.length) message k).length ≤ maxLength := by
  have room := maxMarker_add_chunkSize reserved limit limitSmall small
  have payload := @piece_length _ (chunkSize markerMaxSizeEver maxLength message.length) k message
  have whole : (fragmentAt id (chunkSize markerMaxSizeEver maxLength message.length) message k).length =
      (printed id (chunkSize markerMaxSizeEver maxLength message.length) message k).length +
        (piece (chunkSize markerMaxSizeEver maxLength message.length) message k).length := by
    simp only [fragmentAt, fragmentBytes, printed, List.length_append]
  omega

/-- All markers fit if the last one does. -/
theorem fits_iff_last (some : 0 < message.length) : Fits markerMaxSizeEver message maxLength id ↔
    (printed id (chunkSize markerMaxSizeEver maxLength message.length) message
      (pieceCount (chunkSize markerMaxSizeEver maxLength message.length) message.length - 1)).length ≤
        maxMarker markerMaxSizeEver maxLength message.length := by
  have positive := chunkSize_pos reserved limit small
  have split := @splitMessage_eq markerMaxSizeEver maxLength id message reserved limit limitSmall small
  have pieces : 0 < pieceCount (chunkSize markerMaxSizeEver maxLength message.length) message.length := by
    rw [lt_pieceCount_iff positive]
    omega
  rw [Fits, split]
  constructor
  · intro fits
    have last := fits _ rfl _ (Nat.sub_one_lt_of_lt pieces)
    exact last.2 _ ((beginsWith_iff (Nat.sub_one_lt_of_lt pieces)).mpr rfl)
  · intro last m same k inside
    cases same
    have inside : k < pieceCount (chunkSize markerMaxSizeEver maxLength message.length) message.length := inside
    have own := Nat.le_trans (@printed_mono id _ k message _ (Nat.le_sub_one_of_lt inside)) last
    rw [part_splitInto inside]
    refine ⟨fragmentAt_le reserved limit limitSmall small own, fun marker begins => ?_⟩
    rw [(beginsWith_iff inside).mp begins]
    exact own

end Admitted

/-! ## After `initialize` -/

/-- The estimate counts at least as many parts as there are. -/
theorem printed_le {maxLength id k : Nat} {message : List UInt8} (limit : 63 < maxLength)
    (limitSmall : maxLength < 2 ^ 32) (small : message.length < 2 ^ 32) (digits : numDigits id = szTm)
    (inside : k < pieceCount (chunkSize 63 maxLength message.length) message.length) :
    (printed id (chunkSize 63 maxLength message.length) message k).length ≤ maxMarker 63 maxLength message.length := by
  have positive := chunkSize_pos (Nat.le_refl 63) limit small
  have offset := (lt_pieceCount_iff positive).mp inside
  have estimated : maxLength - 63 ≤ chunkSize 63 maxLength message.length := by
    have count := pieceCount_le message.length (show 0 < maxLength - 63 by omega)
    have marker := markerMaxSizeBytes_le (show pieceCount (maxLength - 63) message.length < 2 ^ 32 by omega) small
    rw [chunkSize]
    omega
  have parts := numDigits_mono (@pieceCount_anti _ _ message.length (by omega) estimated)
  have partNo := numDigits_mono (show k + 1 ≤ pieceCount (chunkSize 63 maxLength message.length) message.length by omega)
  have off := numDigits_mono (Nat.le_of_lt offset)
  rw [printed_length, maxMarker_eq (Nat.le_refl 63) limit limitSmall small, markerMaxSizeBytes_eq, digits, szTm]
  omega

/-- The loop of `splitMessage` goes round once for each part. -/
theorem splitLoop_whole {size id : Nat} {message : List UInt8} (positive : 0 < size) :
    splitLoop size id (pieceCount size message.length) message.length message.length 1 0 message.length message =
      (splitInto id size message).fragments := by
  have loop := @splitLoop_eq id size message positive (pieceCount size message.length) message.length 0
    (by omega) (by omega)
  rwa [Nat.zero_mul, Nat.sub_zero, List.drop_zero, Nat.zero_add, ← List.range_eq_range'] at loop

/-- The pieces of a message, in order. -/
def pieces (size : Nat) (message : List UInt8) : List (List UInt8) :=
  (List.range (pieceCount size message.length)).map (piece size message)

theorem take_pieces {size k : Nat} {message : List UInt8} (le : k ≤ pieceCount size message.length) :
    (pieces size message).take k = (List.range k).map (piece size message) := by
  rw [pieces, ← List.map_take, List.take_range, Nat.min_eq_left le]

/-- With the `markerMaxSizeEver` that `initialize` sets, for every limit above
63, every longer message and every 13-digit id. -/
theorem split_partitions {maxLength id : Nat} {message : List UInt8} (limit : 63 < maxLength)
    (long : maxLength < message.length) (small : message.length < 2 ^ 32) (lower : 10 ^ 12 ≤ id)
    (upper : id < 10 ^ 13) : ∃ m payloads,
      splitMessage (markerMaxSizeBytes (2 ^ 31 - 1) (2 ^ 31 - 1)) message maxLength id = .ok m ∧
      Partitions (markerMaxSizeBytes (2 ^ 31 - 1) (2 ^ 31 - 1)) maxLength id message m payloads := by
  have limitSmall : maxLength < 2 ^ 32 := Nat.lt_trans long small
  have positive := chunkSize_pos (Nat.le_refl 63) limit small
  have split := @splitMessage_eq 63 maxLength id message (Nat.le_refl 63) limit limitSmall small
  have room := maxMarker_add_chunkSize (Nat.le_refl 63) limit limitSmall small
  have size : maxLength - maxMarker 63 maxLength message.length = chunkSize 63 maxLength message.length := by
    omega
  rw [markerMaxSizeEver_eq]
  refine ⟨_, pieces (chunkSize 63 maxLength message.length) message, split,
    ⟨by simp [splitInto], by simp [pieces, splitInto]⟩, ?_, ?_, ?_, ?_⟩
  · rw [size]
    exact splitLoop_whole positive
  · rw [pieces, flatten_pieces]
    exact List.take_of_length_le (le_pieceCount_mul message.length positive)
  · intro payload member
    obtain ⟨k, inside, rfl⟩ := List.mem_map.mp member
    exact piece_ne_nil positive (List.mem_range.mp inside)
  · intro k payload at_k
    rw [pieces, List.getElem?_map, Option.map_eq_some_iff] at at_k
    obtain ⟨j, at_k, rfl⟩ := at_k
    obtain ⟨inside, same⟩ := List.getElem?_eq_some_iff.mp at_k
    rw [List.length_range] at inside
    rw [List.getElem_range] at same
    subst same
    have offset := (lt_pieceCount_iff positive).mp inside
    have own := printed_le limit limitSmall small (numDigits_id lower upper) inside
    dsimp only
    rw [take_pieces (Nat.le_of_lt inside), flatten_pieces, List.length_take, Nat.min_eq_left (Nat.le_of_lt offset),
      part_splitInto inside]
    refine ⟨rfl, ?_, fragmentAt_le (Nat.le_refl 63) limit limitSmall small own, own⟩
    simp only [fragmentAt, fragmentBytes, List.length_append]
    rfl

/-- A hundred and one bytes over packets of a hundred. -/
theorem split_partitions_two : 63 < 100 ∧ ∃ m payloads,
    splitMessage (markerMaxSizeBytes (2 ^ 31 - 1) (2 ^ 31 - 1)) (List.replicate 101 1) 100 1234567890123 = .ok m ∧
    Partitions (markerMaxSizeBytes (2 ^ 31 - 1) (2 ^ 31 - 1)) 100 1234567890123 (List.replicate 101 1) m payloads := by
  have length : (List.replicate 101 (1 : UInt8)).length = 101 := List.length_replicate
  exact ⟨by decide, split_partitions (by decide) (by rw [length]; decide) (by rw [length]; decide) (by decide)
    (by decide)⟩

/-! ## Before `initialize` is done -/

/-- The calls of `splitMessage` for these rows: the `markerMaxSizeEver` at the time, and the row. -/
def splitCalls (w : World) : List PendingSent → State → List (Nat × PendingSent)
  | [], _ => []
  | p :: ps, s => (s.markerMaxSizeEver, p) ::
      (loadPendingSentMessage w s p).toOption.toList.flatMap (splitCalls w ps)

/-- The calls that the first `initialize` of a process makes over this store. -/
def loadingCalls (w : World) (db : Db) : List (Nat × PendingSent) :=
  splitCalls w (stmtSelectFragmentedOutboundPending db) (loadingState w db)

section Loading
variable {w : World} {db : Db} {limit : BlobLimit} {o : Outgoing} {parts : Finset Nat}

theorem splitCalls_eq (room : 63 < w.params.maxMessageLength) (limitSmall : w.params.maxMessageLength < 2 ^ 32)
    (ps : List PendingSent) : ∀ {s : State}, s.markerMaxSizeEver = 0 →
      splitCalls w ps s = ps.map fun p => (0, p) := by
  induction ps with
  | nil =>
    intro s _
    rfl
  | cons p ps ih =>
    intro s starting
    obtain ⟨m, split⟩ := @splitMessage_returns 0 w.params.maxMessageLength p.id p.message (Nat.zero_le _) room limitSmall
    have rest := @ih (settle s p (loaded w p)) (settle_marker.trans starting)
    rw [splitCalls, loadPendingSentMessage_eq starting split, starting, List.map_cons]
    simpa [Except.toOption] using rest

/-- A starting process calls `splitMessage` for every row, always with zero. -/
theorem mem_loadingCalls (room : 63 < w.params.maxMessageLength)
    (limitSmall : w.params.maxMessageLength < 2 ^ 32) {big : Nat} {p : PendingSent} :
    (big, p) ∈ loadingCalls w db ↔ big = 0 ∧ p ∈ stmtSelectFragmentedOutboundPending db := by
  rw [loadingCalls, splitCalls_eq room limitSmall _ rfl, List.mem_map]
  constructor
  · rintro ⟨q, member, same⟩
    cases same
    exact ⟨rfl, member⟩
  · rintro ⟨rfl, member⟩
    exact ⟨p, member, rfl⟩

/-- The parts that a starting process makes of the message, and its estimate of their number. -/
def startParts (o : Outgoing) : Nat := pieceCount o.startSize o.bytes.length
def startEstimate (o : Outgoing) : Nat := pieceCount o.maxLength o.bytes.length

/-- What is printed in the last marker fits what the estimate allows for. -/
def LastFits (o : Outgoing) : Prop :=
  numDigits o.id + 2 * numDigits (startParts o) + numDigits ((startParts o - 1) * o.startSize) ≤
    szTm + 2 * numDigits (startEstimate o) + numDigits o.bytes.length

theorem startParts_pos (small : o.bytes.length < 2 ^ 32) : 1 < startParts o := by
  have long := o.long
  have less : o.startSize ≤ o.maxLength := Nat.sub_le _ _
  rw [startParts, lt_pieceCount_iff (Outgoing.startSize_pos small)]
  omega

theorem fits_iff_lastFits (small : o.bytes.length < 2 ^ 32) : Fits 0 o.bytes o.maxLength o.id ↔ LastFits o := by
  have some := startParts_pos small
  have long := o.long
  have last := @printed_length o.id o.startSize (startParts o - 1) o.bytes
  have number : startParts o - 1 + 1 = startParts o := by omega
  have count : pieceCount o.startSize o.bytes.length = startParts o := rfl
  have room := maxMarker_eq (Nat.zero_le 63) o.room o.maxLengthSmall small
  rw [Nat.sub_zero, markerMaxSizeBytes_eq] at room
  rw [number, count] at last
  rw [fits_iff_last (Nat.zero_le 63) o.room o.maxLengthSmall small (by omega)]
  change (printed o.id o.startSize o.bytes (startParts o - 1)).length ≤ _ ↔ _
  rw [last, room, LastFits, szTm]
  change _ ≤ 2 * numDigits (startEstimate o) + _ + _ ↔ _
  omega

/-- Twice a number has at most one digit more. -/
theorem numDigits_double (n : Nat) : numDigits (2 * n) ≤ numDigits n + 1 := by
  have bound := (numDigits_le_iff n (numDigits_pos n)).mp (Nat.le_refl _)
  rw [numDigits_le_iff _ (Nat.succ_pos _), Nat.succ_eq_add_one, Nat.pow_succ]
  omega

/-- For the id of a clock: it fits exactly if the parts have as many digits as was estimated. -/
theorem lastFits_iff (small : o.bytes.length < 2 ^ 32) (digits : numDigits o.id = szTm) :
    LastFits o ↔ numDigits (startParts o) = numDigits (startEstimate o) := by
  have positive := Outgoing.startSize_pos small
  have some := startParts_pos small
  have less : o.startSize ≤ o.maxLength := Nat.sub_le _ _
  have more : numDigits (startEstimate o) ≤ numDigits (startParts o) :=
    numDigits_mono (pieceCount_anti positive less)
  have inside : (startParts o - 1) * o.startSize < o.bytes.length :=
    (lt_pieceCount_iff positive).mp (Nat.sub_one_lt_of_lt some)
  have offset := numDigits_mono (Nat.le_of_lt inside)
  -- all parts but one are at least half of the message
  have half : numDigits o.bytes.length ≤ numDigits ((startParts o - 1) * o.startSize) + 1 := by
    have covered := le_pieceCount_mul o.bytes.length positive
    have one : o.startSize ≤ (startParts o - 1) * o.startSize := Nat.le_mul_of_pos_left _ (by omega)
    have all : startParts o * o.startSize = (startParts o - 1) * o.startSize + o.startSize := by
      rw [← Nat.succ_mul, Nat.succ_eq_add_one, Nat.sub_add_cancel (by omega)]
    have twice : o.bytes.length ≤ 2 * ((startParts o - 1) * o.startSize) := by
      change o.bytes.length ≤ startParts o * o.startSize at covered
      omega
    exact Nat.le_trans (numDigits_mono twice) (numDigits_double _)
  rw [LastFits, digits]
  omega

/-- The calls for the message's row all fit. -/
def LoadsFit (w : World) (db : Db) (o : Outgoing) : Prop :=
  ∀ big p, (big, p) ∈ loadingCalls w db → keyOf p = o.key →
    Fits big p.message w.params.maxMessageLength p.id

/-- The row of the message as it is read. -/
theorem pending_of_rowsOf (rowsOf : RowsOf limit o parts (rows db o.key)) :
    (∃ p ∈ stmtSelectFragmentedOutboundPending db, keyOf p = o.key) ∧
      ∀ p ∈ stmtSelectFragmentedOutboundPending db, keyOf p = o.key → p.message = o.bytes ∧ p.id = o.id := by
  obtain ⟨_, ⟨row, metaFound, _⟩, data, _, dataFound, message, _⟩ := rowsOf
  have shape : rows db o.key = ⟨some row, some data⟩ := by rw [← metaFound, ← dataFound]
  constructor
  · exact ⟨pendingOf o.key row data, mem_pending.mpr ⟨row, data, shape, rfl⟩, rfl⟩
  · intro p selected mine
    obtain ⟨row', data', found, same⟩ := mem_pending.mp selected
    rw [mine, shape, Rows.mk.injEq] at found
    obtain ⟨_, rfl⟩ : row = row' ∧ data = data' := ⟨Option.some.inj found.1, Option.some.inj found.2⟩
    rw [mine] at same
    exact ⟨(congrArg PendingSent.message same).trans message, congrArg PendingSent.id same⟩

theorem loadsFit_iff (recorded : Recorded limit o parts db) (sameLimit : w.params.maxMessageLength = o.maxLength) :
    o.bytes.length < 2 ^ 32 ∧ (LoadsFit w db o ↔ Fits 0 o.bytes o.maxLength o.id) := by
  have rowsOf := rowsOf_recorded recorded
  have bound : limit.val < 2 ^ 31 := limit.property
  have room : 63 < w.params.maxMessageLength := sameLimit ▸ o.room
  have limitSmall : w.params.maxMessageLength < 2 ^ 32 := sameLimit ▸ o.maxLengthSmall
  obtain ⟨⟨p, selected, mine⟩, known⟩ := pending_of_rowsOf rowsOf
  refine ⟨by have := rowsOf.small; omega, ?_, ?_⟩
  · intro fits
    obtain ⟨message, id⟩ := known p selected mine
    have own := fits 0 p ((mem_loadingCalls room limitSmall).mpr ⟨rfl, selected⟩) mine
    rwa [message, id, sameLimit] at own
  · intro fits big q called mineQ
    obtain ⟨rfl, selectedQ⟩ := (mem_loadingCalls room limitSmall).mp called
    obtain ⟨message, id⟩ := known q selectedQ mineQ
    rwa [message, id, sameLimit]

/-- The first `initialize` over a stored message keeps to the buffer and the
packet exactly if the last marker fits what was estimated; for a 13-digit id,
exactly if the message has no more digits of parts than packets without markers
would make. -/
theorem loading_fits_iff (recorded : Recorded limit o parts db)
    (sameLimit : w.params.maxMessageLength = o.maxLength) : (LoadsFit w db o ↔ LastFits o) ∧
      (numDigits o.id = szTm → (LoadsFit w db o ↔ numDigits (startParts o) = numDigits (startEstimate o))) := by
  obtain ⟨small, fits⟩ := loadsFit_iff recorded sameLimit
  have general : LoadsFit w db o ↔ LastFits o := fits.trans (fits_iff_lastFits small)
  exact ⟨general, fun digits => general.trans (lastFits_iff small digits)⟩

end Loading

theorem sixtyFour_bounds (more : Nat) :
    63 < 64 ∧ 64 < 2 ^ 32 ∧ 64 < (List.replicate (65 + more) (65 : UInt8)).length := by
  rw [List.length_replicate]
  omega

/-- A packet of sixty-four bytes, one byte more, and some. -/
def sixtyFour (more : Nat) : Outgoing where
  friendNumber := 7
  id := 1234567890123
  type := 0
  receipt := 5
  maxLength := 64
  bytes := List.replicate (65 + more) 65
  room := (sixtyFour_bounds more).1
  maxLengthSmall := (sixtyFour_bounds more).2.1
  long := (sixtyFour_bounds more).2.2

/-- The store that its sender left. -/
def recorded64 (more : Nat) : Except Fault Db := do
  let o := sixtyFour more
  let msg ← splitMessage (markerMaxSizeBytes (2 ^ 31 - 1) (2 ^ 31 - 1)) o.bytes o.maxLength o.id
  dbInsertOutboundMessage defaultLimit {} o.friendNumber o.type o.id o.id msg.numParts o.bytes o.receipt

theorem recorded_sixtyFour {more : Nat} {db : Db} (ran : recorded64 more = .ok db) :
    Recorded defaultLimit (sixtyFour more) ∅ db := by
  obtain ⟨msg, split, inserted⟩ := bind_ok.mp ran
  exact .inserted split inserted

/-- Two parts, as estimated. -/
theorem loading_fits_two : ∃ db, Recorded defaultLimit (sixtyFour 0) ∅ db ∧
    LoadsFit (scripted { maxMessageLength := 64 } [] []) db (sixtyFour 0) := by
  have ran : (recorded64 0).toOption.any (fun _ => true) = true := by decide +kernel
  obtain ⟨db, ran, -⟩ := any_toOption.mp ran
  have recorded := recorded_sixtyFour ran
  exact ⟨db, recorded, ((loading_fits_iff (w := scripted { maxMessageLength := 64 } [] []) recorded rfl).2
    (by decide +kernel)).mpr (by decide +kernel)⟩

/-- Ten parts where five were estimated: the last marker is longer than its buffer. -/
theorem ten_parts_overrun : ∃ db, Recorded defaultLimit (sixtyFour 233) ∅ db ∧
    ¬ LoadsFit (scripted { maxMessageLength := 64 } [] []) db (sixtyFour 233) := by
  have ran : (recorded64 233).toOption.any (fun _ => true) = true := by decide +kernel
  obtain ⟨db, ran, -⟩ := any_toOption.mp ran
  have recorded := recorded_sixtyFour ran
  refine ⟨db, recorded, fun fits => ?_⟩
  obtain ⟨small, both⟩ := loadsFit_iff (w := scripted { maxMessageLength := 64 } [] []) recorded rfl
  have last := (lastFits_iff small (by decide +kernel)).mp ((fits_iff_lastFits small).mp (both.mp fits))
  revert last
  decide +kernel

end Defragmenter.Partition
