import Defragmenter.InboundStore

/-! One outgoing message as the store sees it: what recording it, a receipt for
one of its parts and clearing it do to the two rows of its key. Each call
leaves every other row alone. -/
namespace Defragmenter.OutboundStore
open Database InboundStore Tiling

/-- The key of an outgoing message. -/
def outboundKey (friendNumber id : Nat) : Key := ⟨true, friendNumber, id⟩

/-- The rows `dbInsertOutboundMessage` writes. -/
def newRows (type : Int) (tm numParts : Nat) (data : List UInt8) (receipt : Nat) : Rows where
  metaRow := some ⟨type, toInt64 tm, toInt64 tm, 0, toInt32 numParts⟩
  dataRow := some ⟨data, some (List.replicate (toInt32 numParts).toNat 0), some (toInt32 receipt)⟩

variable {limit : BlobLimit} {db db' : Db} {friendNumber id tm numParts receipt partNo : Nat}
  {type : Int} {data : List UInt8}

theorem insertRow_ok_iff {ρ : Type} {table table' : AList fun _ : Key => ρ} {key : Key} {row : ρ} :
    insertRow table key row = .ok table' ↔ table.lookup key = none ∧ table' = table.insert key row := by
  unfold insertRow
  cases table.lookup key <;> simp [eq_comm]

theorem zeroblob_ok_iff {n : Int} {blob : List UInt8} :
    zeroblob limit n = .ok blob ↔ n ≤ limit.val ∧ blob = List.replicate n.toNat 0 := by
  unfold zeroblob
  split
  · simp
    omega
  · simp [eq_comm]
    omega

theorem integerBytes_le (n : Int) : integerBytes n ≤ 8 := by
  unfold integerBytes
  split_ifs <;> omega

theorem blobBytes_bounds (length : Nat) : length < blobBytes length ∧ blobBytes length ≤ length + 5 := by
  simp only [blobBytes]
  split_ifs <;> omega

/-- The row is longer than the message and the bytes of its parts, and not by much. -/
theorem outboundRowBytes_bounds (friendNumber id length confirmed receipt : Nat) :
    length + confirmed < outboundRowBytes friendNumber id length confirmed receipt ∧
      outboundRowBytes friendNumber id length confirmed receipt ≤ length + confirmed + 39 := by
  have message := blobBytes_bounds length
  have parts := blobBytes_bounds confirmed
  have friend := integerBytes_le (toInt32 friendNumber)
  have ids := integerBytes_le (toInt64 id)
  have number := integerBytes_le (toInt32 receipt)
  have one : integerBytes 1 = 0 := rfl
  unfold outboundRowBytes
  omega

/-- Recording a message takes a key without rows and a row within SQLite's limit. -/
theorem insert_ok_iff : dbInsertOutboundMessage limit db friendNumber type id tm numParts data receipt =
      .ok db' ↔
    rows db (outboundKey friendNumber id) = {} ∧
      outboundRowBytes friendNumber id data.length (toInt32 numParts).toNat receipt ≤ limit.val ∧
      db' = dbUnlock { dbLock db with
        fragmentedMeta := db.fragmentedMeta.insert (outboundKey friendNumber id)
          ⟨type, toInt64 tm, toInt64 tm, 0, toInt32 numParts⟩
        fragmentedData := db.fragmentedData.insert (outboundKey friendNumber id)
          ⟨data, some (List.replicate (toInt32 numParts).toNat 0), some (toInt32 receipt)⟩ } := by
  constructor
  · intro ran
    obtain ⟨metaTable, metaRan, ran⟩ := bind_ok.mp ran
    obtain ⟨noMeta, rfl⟩ := insertRow_ok_iff.mp metaRan
    split at ran
    · cases ran
    · obtain ⟨blob, blobRan, ran⟩ := bind_ok.mp ran
      obtain ⟨_, blank⟩ := zeroblob_ok_iff.mp blobRan
      split at ran
      · cases ran
      · rename_i fits
        obtain ⟨dataTable, dataRan, ran⟩ := bind_ok.mp ran
        obtain ⟨noData, rfl⟩ := insertRow_ok_iff.mp dataRan
        rw [pure_ok, blank] at ran
        rw [blank, List.length_replicate] at fits
        have noMeta : db.fragmentedMeta.lookup (outboundKey friendNumber id) = none := noMeta
        have noData : db.fragmentedData.lookup (outboundKey friendNumber id) = none := noData
        exact ⟨by rw [rows, noMeta, noData], Nat.le_of_not_lt fits, ran.symm⟩
  · rintro ⟨empty, fits, rfl⟩
    simp only [rows, Rows.mk.injEq] at empty
    have within := (outboundRowBytes_bounds friendNumber id data.length (toInt32 numParts).toNat receipt).1
    refine bind_ok.mpr ⟨_, insertRow_ok_iff.mpr ⟨empty.1, rfl⟩, ?_⟩
    rw [if_neg (show ¬ limit.val < data.length by omega)]
    refine bind_ok.mpr ⟨_, zeroblob_ok_iff.mpr ⟨by omega, rfl⟩, ?_⟩
    rw [List.length_replicate, if_neg (Nat.not_lt.mpr fits)]
    exact bind_ok.mpr ⟨_, insertRow_ok_iff.mpr ⟨empty.2, rfl⟩, rfl⟩

/-- Whatever the store refuses ends in `errSql`. -/
theorem fault_of_insert {fault : Fault} (failed : dbInsertOutboundMessage limit db friendNumber type id tm numParts
    data receipt = .error fault) : fault = .abort := by
  have row : ∀ {ρ : Type} {table : AList fun _ : Key => ρ} {key : Key} {row : ρ},
      insertRow table key row = .error fault → fault = .abort := by
    intro ρ table key row failed
    unfold insertRow at failed
    split at failed
    · exact (Except.error.inj failed).symm
    · cases failed
  rcases bind_error.mp failed with failed | ⟨_, _, failed⟩
  · exact row failed
  split at failed
  · exact (Except.error.inj failed).symm
  rcases bind_error.mp failed with failed | ⟨_, _, failed⟩
  · unfold zeroblob at failed
    split at failed
    · exact (Except.error.inj failed).symm
    · cases failed
  split at failed
  · exact (Except.error.inj failed).symm
  rcases bind_error.mp failed with failed | ⟨_, _, failed⟩
  · exact row failed
  · cases failed

/-- A row that is too long is refused. -/
theorem insert_aborts (large : limit.val <
      outboundRowBytes friendNumber id data.length (toInt32 numParts).toNat receipt) :
    dbInsertOutboundMessage limit db friendNumber type id tm numParts data receipt = .error .abort := by
  cases ran : dbInsertOutboundMessage limit db friendNumber type id tm numParts data receipt with
  | error fault => rw [fault_of_insert ran]
  | ok db' => exact absurd (insert_ok_iff.mp ran).2.1 (Nat.not_le.mpr large)

/-- Where a message has no more parts than bytes, the cast of their number does not
decide whether its row fits. -/
theorem row_fits_iff {length : Nat} (parts : numParts ≤ length) :
    outboundRowBytes friendNumber id length (toInt32 numParts).toNat receipt ≤ limit.val ↔
      outboundRowBytes friendNumber id length numParts receipt ≤ limit.val := by
  have bound : limit.val < 2 ^ 31 := limit.property
  rcases Nat.lt_or_ge limit.val length with large | small
  · have cast := (outboundRowBytes_bounds friendNumber id length (toInt32 numParts).toNat receipt).1
    have whole := (outboundRowBytes_bounds friendNumber id length numParts receipt).1
    constructor <;> omega
  · rw [toInt32_of_lt (by omega), Int.toNat_natCast]

/-- A recorded message is within the limit itself. -/
theorem length_le_of_inserted (ran : dbInsertOutboundMessage limit db friendNumber type id tm numParts data
    receipt = .ok db') : data.length ≤ limit.val := by
  have fits := (insert_ok_iff.mp ran).2.1
  have within := (outboundRowBytes_bounds friendNumber id data.length (toInt32 numParts).toNat receipt).1
  omega

theorem rows_inserted (ran : dbInsertOutboundMessage limit db friendNumber type id tm numParts data
      receipt = .ok db') :
    rows db' (outboundKey friendNumber id) = newRows type tm numParts data receipt ∧
      AgreeOff (outboundKey friendNumber id) db db' := by
  obtain ⟨_, _, rfl⟩ := insert_ok_iff.mp ran
  refine ⟨by simp [rows, newRows, dbUnlock], fun other different => ?_⟩
  simp [rows, dbUnlock, AList.lookup_insert_ne different]

theorem overwrite_one {blob : List UInt8} {k : Nat} {b : UInt8} (inside : k < blob.length) :
    overwrite blob k [b] = blob.set k b := by
  rw [List.set_eq_take_append_cons_drop, if_pos inside, overwrite, List.append_assoc]
  rfl

/-- `dbOutboundPartConfirmed` in a process that crashes right behind the given effect. -/
def partConfirmedUntil (stop : Statement) (db : Db) (friendNumber id partNo tm : Nat) :
    Except Fault Db := do
  let db := dbLock db
  match getFragmentsDataRowid db true friendNumber id with
  | none => throw .abort
  | some rowid =>
    match db.fragmentedData.lookup rowid with
    | none => throw .abort
    | some row =>
      match row.confirmed with
      | none => throw .abort
      | some blob =>
        let confirmed ← writeBlob blob [1] 1 (toUnsigned ((partNo : Int) - 1))
        let db := { db with
          fragmentedData := db.fragmentedData.insert rowid { row with confirmed := some confirmed } }
        if stop = .blobWrite then pure db else
        let db ← updateFragmentedMetaDone db true tm friendNumber id
        pure (dbUnlock db)

/-- The write is the only effect a crash can come behind that leaves another one out. -/
theorem partConfirmedUntil_whole {stop : Statement} (whole : stop ≠ .blobWrite) :
    partConfirmedUntil stop db friendNumber id partNo tm =
      dbOutboundPartConfirmed db friendNumber id partNo tm := by
  cases stop with
  | blobWrite => exact absurd rfl whole
  | dataInsert | metaInsert | counterUpdate | readyCallback | dataDelete => rfl

/-- The receipt of one part sets its byte, and counts it unless a crash comes between. -/
theorem rows_partConfirmedUntil (stop : Statement) {row : MetaRow} {stored : DataRow}
    {blob : List UInt8} (here : rows db (outboundKey friendNumber id) = ⟨some row, some stored⟩)
    (confirmed : stored.confirmed = some blob) (positive : 0 < partNo) (inside : partNo ≤ blob.length)
    (small : blob.length < 2 ^ 32) :
    ∃ db', partConfirmedUntil stop db friendNumber id partNo tm = .ok db' ∧
      rows db' (outboundKey friendNumber id) =
        ⟨some (if stop = .blobWrite then row else { row with
          timestampLast := max row.timestampLast (toInt32 tm)
          fragsDone := row.fragsDone + 1 }),
        some { stored with confirmed := some (blob.set (partNo - 1) 1) }⟩ ∧
      AgreeOff (outboundKey friendNumber id) db db' := by
  simp only [rows, Rows.mk.injEq] at here
  have dataHere : (dbLock db).fragmentedData.lookup ⟨true, friendNumber, id⟩ = some stored := here.2
  have metaHere : (dbLock db).fragmentedMeta.lookup ⟨true, friendNumber, id⟩ = some row := here.1
  have offset : toUnsigned ((partNo : Int) - 1) = partNo - 1 := by
    rw [show ((partNo : Int) - 1) = ((partNo - 1 : Nat) : Int) by omega]
    exact toUnsigned_of_lt (by omega)
  have rowid : getFragmentsDataRowid (dbLock db) true friendNumber id =
      some (outboundKey friendNumber id) := by
    unfold getFragmentsDataRowid
    rw [dataHere]
    rfl
  have written : writeBlob blob [1] 1 (toUnsigned ((partNo : Int) - 1)) =
      .ok (blob.set (partNo - 1) 1) := by
    rw [offset, writeBlob, if_pos (by omega), List.take_of_length_le (by simp), overwrite_one (by omega)]
  have updated : ∀ table, updateFragmentedMetaDone { dbLock db with fragmentedData := table } true tm
      friendNumber id = .ok { dbLock db with
        fragmentedMeta := (dbLock db).fragmentedMeta.insert (outboundKey friendNumber id) { row with
          timestampLast := max row.timestampLast (toInt32 tm)
          fragsDone := row.fragsDone + 1 }
        fragmentedData := table } := by
    intro table
    simp only [updateFragmentedMetaDone, metaHere]
    rfl
  have dataFound : (dbLock db).fragmentedData.lookup (outboundKey friendNumber id) = some stored :=
    dataHere
  let flagged : Db := { dbLock db with
    fragmentedData := (dbLock db).fragmentedData.insert (outboundKey friendNumber id)
      { stored with confirmed := some (blob.set (partNo - 1) 1) } }
  let after : Db := { flagged with
    fragmentedMeta := flagged.fragmentedMeta.insert (outboundKey friendNumber id) { row with
      timestampLast := max row.timestampLast (toInt32 tm)
      fragsDone := row.fragsDone + 1 } }
  have first : AgreeOff (outboundKey friendNumber id) (dbLock db) flagged := agreeOff_insert_data
  have flaggedRows : rows flagged (outboundKey friendNumber id) =
      ⟨some row, some { stored with confirmed := some (blob.set (partNo - 1) 1) }⟩ :=
    rows_insert_data.trans (congrArg (Rows.mk · _) metaHere)
  simp only [partConfirmedUntil, rowid, dataFound, confirmed, written, bind, Except.bind, updated]
  by_cases cut : stop = .blobWrite
  · simp only [cut, ↓reduceIte]
    exact ⟨flagged, rfl, flaggedRows, first⟩
  · simp only [cut, ↓reduceIte]
    refine ⟨dbUnlock after, rfl, ?_, first.trans agreeOff_insert_meta⟩
    exact rows_insert_meta.trans (by rw [flaggedRows])

theorem rows_partConfirmed {row : MetaRow} {stored : DataRow} {blob : List UInt8}
    (here : rows db (outboundKey friendNumber id) = ⟨some row, some stored⟩)
    (confirmed : stored.confirmed = some blob) (positive : 0 < partNo) (inside : partNo ≤ blob.length)
    (small : blob.length < 2 ^ 32) :
    ∃ db', dbOutboundPartConfirmed db friendNumber id partNo tm = .ok db' ∧
      rows db' (outboundKey friendNumber id) =
        ⟨some { row with
          timestampLast := max row.timestampLast (toInt32 tm)
          fragsDone := row.fragsDone + 1 },
        some { stored with confirmed := some (blob.set (partNo - 1) 1) }⟩ ∧
      AgreeOff (outboundKey friendNumber id) db db' := by
  have ran := @rows_partConfirmedUntil db friendNumber id tm partNo .dataDelete row stored blob here
    confirmed positive inside small
  rw [partConfirmedUntil_whole (by simp), if_neg (by simp)] at ran
  exact ran

/-- A call for one message leaves the rows of the others alone, whatever it finds. -/
theorem partConfirmedUntil_agree {stop : Statement}
    (ran : partConfirmedUntil stop db friendNumber id partNo tm = .ok db') :
    AgreeOff (outboundKey friendNumber id) db db' := by
  simp only [partConfirmedUntil, getFragmentsDataRowid] at ran
  split at ran
  · cases ran
  · rename_i rowid located
    split at located
    · obtain rfl := Option.some.inj located
      split at ran
      · cases ran
      · split at ran
        · cases ran
        · rename_i row _ _ blob _
          obtain ⟨confirmed, _, ran⟩ := bind_ok.mp ran
          have first : AgreeOff (outboundKey friendNumber id) db { dbLock db with
              fragmentedData := (dbLock db).fragmentedData.insert (outboundKey friendNumber id)
                { row with confirmed := some confirmed } } :=
            @agreeOff_insert_data (dbLock db) (outboundKey friendNumber id) _
          split at ran
          · cases ran
            exact first
          · obtain ⟨db₁, updated, ran⟩ := bind_ok.mp ran
            cases ran
            unfold updateFragmentedMetaDone at updated
            split at updated
            · cases updated
            · cases updated
              exact first.trans agreeOff_insert_meta
    · cases located

/-- A part is confirmed in a row that is there. -/
theorem dataRow_of_confirmed {key : Key}
    (ran : dbOutboundPartConfirmed db friendNumber id partNo tm = .ok db')
    (held : (rows db' key).dataRow ≠ none) : (rows db key).dataRow ≠ none := by
  have cut : partConfirmedUntil .dataDelete db friendNumber id partNo tm = .ok db' := by
    rw [partConfirmedUntil_whole (by simp)]
    exact ran
  by_cases same : key = outboundKey friendNumber id
  · subst same
    intro absent
    have absent : (dbLock db).fragmentedData.lookup ⟨true, friendNumber, id⟩ = none := absent
    unfold dbOutboundPartConfirmed getFragmentsDataRowid at ran
    dsimp only at ran
    rw [absent] at ran
    cases ran
  · rwa [← partConfirmedUntil_agree cut key same]

/-- A confirmation finds the meta row of its message and counts in it. -/
theorem metaRow_confirmed (ran : dbOutboundPartConfirmed db friendNumber id partNo tm = .ok db') :
    ∃ row, (rows db (outboundKey friendNumber id)).metaRow = some row ∧
      (rows db' (outboundKey friendNumber id)).metaRow = some { row with
        timestampLast := max row.timestampLast (toInt32 tm)
        fragsDone := row.fragsDone + 1 } := by
  unfold dbOutboundPartConfirmed at ran
  dsimp only at ran
  split at ran
  · cases ran
  · split at ran
    · cases ran
    · split at ran
      · cases ran
      · obtain ⟨confirmed, _, ran⟩ := bind_ok.mp ran
        obtain ⟨db₁, updated, ran⟩ := bind_ok.mp ran
        cases ran
        unfold updateFragmentedMetaDone at updated
        split at updated
        · cases updated
        · rename_i row found
          cases updated
          refine ⟨row, found, ?_⟩
          simp [rows, dbUnlock, outboundKey]

/-- Confirming a part neither makes nor deletes a meta row. -/
theorem metaRow_of_confirmed {key : Key}
    (ran : dbOutboundPartConfirmed db friendNumber id partNo tm = .ok db') :
    (rows db' key).metaRow.isSome = (rows db key).metaRow.isSome := by
  by_cases same : key = outboundKey friendNumber id
  · subst same
    obtain ⟨row, before, after⟩ := metaRow_confirmed ran
    simp [before, after]
  · have cut : partConfirmedUntil .dataDelete db friendNumber id partNo tm = .ok db' := by
      rw [partConfirmedUntil_whole (by simp)]
      exact ran
    rw [partConfirmedUntil_agree cut key same]

/-- Clearing a message deletes its data row and keeps its meta row. -/
theorem rows_cleared (key : Key) :
    rows (dbClearOutboundPending db friendNumber id) key =
      if key = outboundKey friendNumber id then ⟨(rows db key).metaRow, none⟩ else rows db key := by
  split
  · rename_i same
    subst same
    have deleted : rows (deleteDataRecord (dbLock db) true friendNumber id) _ = _ :=
      rows_delete (outboundKey friendNumber id)
    exact deleted
  · rename_i other
    have kept : AgreeOff _ (dbLock db) (deleteDataRecord (dbLock db) true friendNumber id) :=
      agreeOff_delete (outboundKey friendNumber id)
    exact kept key other

end Defragmenter.OutboundStore
