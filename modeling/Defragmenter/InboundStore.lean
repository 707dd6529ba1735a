import Defragmenter.Database

/-! One incoming fragment as the store sees it. `receive` is what
`dbInsertInboundFragment` does to the two rows of its own key; the calls agree
with it exactly and leave every other row alone, so every later statement
about the inbound store is one about a single conversation's rows. The same is
said of a call that a crash cuts short behind one of its effects, and of the
whole call as the one cut short behind the last of them. -/
namespace Defragmenter.InboundStore
open Database Tiling

/-- The rows of one key, in `fragmented_meta` and in `fragmented_data`. -/
structure Rows where
  metaRow : Option MetaRow := none
  dataRow : Option DataRow := none
  deriving DecidableEq, Repr

def rows (db : Db) (key : Key) : Rows :=
  ⟨db.fragmentedMeta.lookup key, db.fragmentedData.lookup key⟩

/-- The meta row a first fragment creates. -/
def newMeta (f : InboundFragment) : MetaRow :=
  ⟨f.type, toInt64 f.tm, toInt64 f.tm, 0, toInt32 f.numParts⟩

@[simp] theorem newMeta_fragsNum (f : InboundFragment) :
    (newMeta f).fragsNum = toInt32 f.numParts := by
  rw [newMeta]

/-- A fragment counted: the update of its meta row. -/
def counted (f : InboundFragment) (m : MetaRow) : MetaRow :=
  { m with timestampLast := max m.timestampLast (toInt32 f.tm), fragsDone := m.fragsDone + 1 }

@[simp] theorem counted_fragsDone (f : InboundFragment) (m : MetaRow) :
    (counted f m).fragsDone = m.fragsDone + 1 := by
  rw [counted]

@[simp] theorem counted_fragsNum (f : InboundFragment) (m : MetaRow) :
    (counted f m).fragsNum = m.fragsNum := by
  rw [counted]

/-- A fragment for a message still being put together. -/
def deposit (f : InboundFragment) (m : MetaRow) (d : DataRow) :
    Except Fault (Rows × Option MsgReady) :=
  match d.message[f.off]? with
  | none => .error .abort
  | some firstByte =>
    if firstByte ≠ 0 then .ok (⟨some m, some d⟩, none)
    else if d.message.length < f.off + f.length % 2 ^ 32 then .error .abort
    else
      let message := overwrite d.message f.off (f.data.take (f.length % 2 ^ 32))
      let done := counted f m
      if done.fragsDone = done.fragsNum then
        .ok (⟨some done, none⟩,
          some ⟨done.timestampFirst, done.timestampLast, f.friendNumber, f.type, message⟩)
      else .ok (⟨some done, some { d with message }⟩, none)

/-- What one fragment does to the rows of its key: a message without data row
is finished, one without either row is begun. -/
def receive (limit : BlobLimit) (f : InboundFragment) (r : Rows) :
    Except Fault (Rows × Option MsgReady) :=
  match r.metaRow, r.dataRow with
  | some m, none => .ok (⟨some m, none⟩, none)
  | none, some _ => .error .abort
  | some m, some d => deposit f m d
  | none, none =>
    if limit.val < f.sz then .error .abort
    else deposit f (newMeta f) { message := List.replicate f.sz 0 }

/-! ## A crash on the way -/

/-- The effects of `dbInsertInboundFragment`, in their order. -/
inductive Statement where
  | dataInsert
  | metaInsert
  | blobWrite
  | counterUpdate
  | readyCallback
  | dataDelete
  deriving DecidableEq, Repr

/-- `dbInsertInboundFragment` in a process that crashes right behind the given
effect, if the call gets there. -/
def insertUntil (limit : BlobLimit) (stop : Statement) (db : Db) (f : InboundFragment) :
    Except Fault (Db × Option MsgReady) := do
  let db ← stmtInsertFragmentedDataInbound limit (dbLock db) f.friendNumber f.id f.sz f.friendNumber f.id
  if stop = .dataInsert then pure (db, none) else
  let db ← stmtInsertFragmentedMetaInbound db f.friendNumber f.type f.id (toInt64 f.tm)
    (toInt64 f.tm) (toInt32 f.numParts) f.friendNumber f.id
  if stop = .metaInsert then pure (db, none) else
  match getFragmentsDataRowid db false f.friendNumber f.id with
  | none => pure (dbUnlock db, none)
  | some rowid =>
    match db.fragmentedData.lookup rowid with
    | none => throw .abort
    | some row =>
      let firstByte ← readBlob row.message 1 f.off
      if firstByte ≠ [0] then pure (db, none)
      else
        let message ← writeBlob row.message f.data (f.length % 2 ^ 32) f.off
        let db := { db with
          fragmentedData := db.fragmentedData.insert rowid { row with message } }
        if stop = .blobWrite then pure (db, none) else
        let db ← updateFragmentedMetaDone db false f.tm f.friendNumber f.id
        if stop = .counterUpdate then pure (db, none) else
        match stmtSelectFragmentedInboundDone db f.friendNumber f.type f.id with
        | some ready =>
          if stop = .readyCallback then pure (db, some ready)
          else pure (dbUnlock (deleteDataRecord db false f.friendNumber f.id), some ready)
        | none => pure (dbUnlock db, none)

/-- A process that crashes behind the last effect has made the whole call. -/
theorem insertUntil_dataDelete (limit : BlobLimit) (db : Db) (f : InboundFragment) :
    insertUntil limit .dataDelete db f = dbInsertInboundFragment limit db f := rfl

/-- What is on disk; the lock goes with the process. -/
def reopened (db : Db) : Db := { db with lock := {} }

/-- `deposit` up to the crash. -/
def depositUntil (stop : Statement) (f : InboundFragment) (m : MetaRow) (d : DataRow) :
    Except Fault (Rows × Option MsgReady) :=
  match d.message[f.off]? with
  | none => .error .abort
  | some firstByte =>
    if firstByte ≠ 0 then .ok (⟨some m, some d⟩, none)
    else if d.message.length < f.off + f.length % 2 ^ 32 then .error .abort
    else
      let message := overwrite d.message f.off (f.data.take (f.length % 2 ^ 32))
      let after := { d with message }
      let done := counted f m
      if stop = .blobWrite then .ok (⟨some m, some after⟩, none)
      else if stop = .counterUpdate then .ok (⟨some done, some after⟩, none)
      else if done.fragsDone = done.fragsNum then
        .ok (⟨some done, if stop = .readyCallback then some after else none⟩,
          some ⟨done.timestampFirst, done.timestampLast, f.friendNumber, f.type, message⟩)
      else .ok (⟨some done, some after⟩, none)

/-- `receive` up to the crash. -/
def receiveUntil (limit : BlobLimit) (stop : Statement) (f : InboundFragment) (r : Rows) :
    Except Fault (Rows × Option MsgReady) :=
  match r.metaRow, r.dataRow with
  | some m, none => .ok (⟨some m, none⟩, none)
  | none, some _ => .error .abort
  | some m, some d =>
    if stop = .dataInsert ∨ stop = .metaInsert then .ok (⟨some m, some d⟩, none)
    else depositUntil stop f m d
  | none, none =>
    let blank : DataRow := { message := List.replicate f.sz 0 }
    if limit.val < f.sz then .error .abort
    else if stop = .dataInsert then .ok (⟨none, some blank⟩, none)
    else if stop = .metaInsert then .ok (⟨some (newMeta f), some blank⟩, none)
    else depositUntil stop f (newMeta f) blank

theorem depositUntil_dataDelete (f : InboundFragment) (m : MetaRow) (d : DataRow) :
    depositUntil .dataDelete f m d = deposit f m d := by
  simp only [depositUntil, deposit, reduceCtorEq, ↓reduceIte]

theorem receiveUntil_dataDelete (limit : BlobLimit) (f : InboundFragment) (r : Rows) :
    receiveUntil limit .dataDelete f r = receive limit f r := by
  obtain ⟨metaRow, dataRow⟩ := r
  cases metaRow <;> cases dataRow <;>
    simp only [receiveUntil, receive, depositUntil_dataDelete, reduceCtorEq, or_self, ↓reduceIte]

variable {limit : BlobLimit} {stop : Statement} {db db' : Db} {f : InboundFragment}
  {ready : Option MsgReady} {m : MetaRow} {d : DataRow}

/-- The two stores show the same rows under every key but this one. -/
def AgreeOff (key : Key) (db db' : Db) : Prop := ∀ other, other ≠ key → rows db' other = rows db other

theorem AgreeOff.trans {key : Key} {db₁ db₂ db₃ : Db} (first : AgreeOff key db₁ db₂)
    (second : AgreeOff key db₂ db₃) : AgreeOff key db₁ db₃ :=
  fun other different => (second other different).trans (first other different)

theorem readBlob_one {blob : List UInt8} {off : Nat} :
    readBlob blob 1 off = match blob[off]? with
      | none => .error .abort
      | some b => .ok [b] := by
  by_cases inside : off < blob.length
  · rw [readBlob, if_pos (by omega), List.getElem?_eq_getElem inside, List.take_one,
      List.head?_drop, List.getElem?_eq_getElem inside]
    rfl
  · rw [readBlob, if_neg (by omega), List.getElem?_eq_none (by omega)]

theorem rows_insert_data {key : Key} {row : DataRow} :
    rows { db with fragmentedData := db.fragmentedData.insert key row } key =
      ⟨(rows db key).metaRow, some row⟩ := by
  simp [rows]

theorem agreeOff_insert_data {key : Key} {row : DataRow} :
    AgreeOff key db { db with fragmentedData := db.fragmentedData.insert key row } := by
  intro other different
  simp [rows, AList.lookup_insert_ne different]

theorem rows_insert_meta {key : Key} {row : MetaRow} :
    rows { db with fragmentedMeta := db.fragmentedMeta.insert key row } key =
      ⟨some row, (rows db key).dataRow⟩ := by
  simp [rows]

theorem agreeOff_insert_meta {key : Key} {row : MetaRow} :
    AgreeOff key db { db with fragmentedMeta := db.fragmentedMeta.insert key row } := by
  intro other different
  simp [rows, AList.lookup_insert_ne different]

theorem rows_delete (key : Key) :
    rows (deleteDataRecord db key.outbound key.friendId key.fragsId) key =
      ⟨(rows db key).metaRow, none⟩ := by
  simp [rows, deleteDataRecord]

theorem agreeOff_delete (key : Key) :
    AgreeOff key db (deleteDataRecord db key.outbound key.friendId key.fragsId) := by
  intro other different
  simp [rows, deleteDataRecord, AList.lookup_erase_ne different]

/-- What is behind the two inserts, up to the crash. -/
def fillUntil (stop : Statement) (db : Db) (f : InboundFragment) : Except Fault (Db × Option MsgReady) :=
  match getFragmentsDataRowid db false f.friendNumber f.id with
  | none => pure (dbUnlock db, none)
  | some rowid =>
    match db.fragmentedData.lookup rowid with
    | none => throw .abort
    | some row => do
      let firstByte ← readBlob row.message 1 f.off
      if firstByte ≠ [0] then pure (db, none)
      else
        let message ← writeBlob row.message f.data (f.length % 2 ^ 32) f.off
        let db := { db with
          fragmentedData := db.fragmentedData.insert rowid { row with message } }
        if stop = .blobWrite then pure (db, none) else
        let db ← updateFragmentedMetaDone db false f.tm f.friendNumber f.id
        if stop = .counterUpdate then pure (db, none) else
        match stmtSelectFragmentedInboundDone db f.friendNumber f.type f.id with
        | some ready =>
          if stop = .readyCallback then pure (db, some ready)
          else pure (dbUnlock (deleteDataRecord db false f.friendNumber f.id), some ready)
        | none => pure (dbUnlock db, none)

theorem insertUntil_eq : insertUntil limit stop db f = (do
    let db ← stmtInsertFragmentedDataInbound limit (dbLock db) f.friendNumber f.id f.sz f.friendNumber
      f.id
    if stop = .dataInsert then pure (db, none) else
    let db ← stmtInsertFragmentedMetaInbound db f.friendNumber f.type f.id (toInt64 f.tm)
      (toInt64 f.tm) (toInt32 f.numParts) f.friendNumber f.id
    if stop = .metaInsert then pure (db, none) else fillUntil stop db f) := rfl

theorem fillUntil_deposit (here : rows db f.key = ⟨some m, some d⟩) :
    match depositUntil stop f m d with
    | .error fault => fillUntil stop db f = .error fault
    | .ok (r, ready) =>
      ∃ db', fillUntil stop db f = .ok (db', ready) ∧ AgreeOff f.key db db' ∧ rows db' f.key = r := by
  have metaFound : db.fragmentedMeta.lookup ⟨false, f.friendNumber, f.id⟩ = some m :=
    congrArg Rows.metaRow here
  have dataFound : db.fragmentedData.lookup ⟨false, f.friendNumber, f.id⟩ = some d :=
    congrArg Rows.dataRow here
  have opened : fillUntil stop db f = (do
      let firstByte ← readBlob d.message 1 f.off
      if firstByte ≠ [0] then pure (db, none)
      else
        let message ← writeBlob d.message f.data (f.length % 2 ^ 32) f.off
        let db := { db with fragmentedData := db.fragmentedData.insert f.key { d with message } }
        if stop = .blobWrite then pure (db, none) else
        let db ← updateFragmentedMetaDone db false f.tm f.friendNumber f.id
        if stop = .counterUpdate then pure (db, none) else
        match stmtSelectFragmentedInboundDone db f.friendNumber f.type f.id with
        | some ready =>
          if stop = .readyCallback then pure (db, some ready)
          else pure (dbUnlock (deleteDataRecord db false f.friendNumber f.id), some ready)
        | none => pure (dbUnlock db, none)) := by
    simp only [fillUntil, getFragmentsDataRowid, dataFound, Option.isSome_some, ↓reduceIte]
    rfl
  rw [opened, readBlob_one]
  unfold depositUntil
  cases probe : d.message[f.off]? with
  | none => rfl
  | some firstByte =>
    by_cases blank : firstByte = 0
    · subst blank
      simp only [ne_eq, not_true_eq_false, ↓reduceIte, bind, Except.bind]
      by_cases short : d.message.length < f.off + f.length % 2 ^ 32
      · have refused : writeBlob d.message f.data (f.length % 2 ^ 32) f.off = .error .abort := by
          rw [writeBlob, if_neg (by omega)]
        simp only [short, ↓reduceIte, refused]
      · have put : writeBlob d.message f.data (f.length % 2 ^ 32) f.off =
            .ok (overwrite d.message f.off (f.data.take (f.length % 2 ^ 32))) := by
          rw [writeBlob, if_pos (by omega)]
        simp only [short, ↓reduceIte, put]
        generalize overwrite d.message f.off (f.data.take (f.length % 2 ^ 32)) = message
        let stored : Db := { db with
          fragmentedData := db.fragmentedData.insert f.key { d with message } }
        let after : Db := { stored with
          fragmentedMeta := stored.fragmentedMeta.insert f.key (counted f m) }
        have storedRows : rows stored f.key = ⟨some m, some { d with message }⟩ := by
          rw [rows_insert_data, here]
        have afterRows : rows after f.key =
            ⟨some (counted f m), some { d with message }⟩ := by
          rw [rows_insert_meta, storedRows]
        have storedAgree : AgreeOff f.key db stored := agreeOff_insert_data
        have afterAgree : AgreeOff f.key db after := storedAgree.trans agreeOff_insert_meta
        have update : updateFragmentedMetaDone stored false f.tm f.friendNumber f.id = .ok after := by
          simp only [updateFragmentedMetaDone, stored, metaFound]
          rfl
        have metaAfter : after.fragmentedMeta.lookup ⟨false, f.friendNumber, f.id⟩ =
            some (counted f m) := congrArg Rows.metaRow afterRows
        have dataAfter : after.fragmentedData.lookup ⟨false, f.friendNumber, f.id⟩ =
            some { d with message } := congrArg Rows.dataRow afterRows
        by_cases wrote : stop = .blobWrite
        · simp only [wrote, ↓reduceIte]
          exact ⟨stored, rfl, storedAgree, storedRows⟩
        · simp only [wrote, ↓reduceIte]
          rw [update]
          by_cases updated : stop = .counterUpdate
          · simp only [updated, ↓reduceIte]
            exact ⟨after, rfl, afterAgree, afterRows⟩
          · simp only [updated, ↓reduceIte, stmtSelectFragmentedInboundDone, metaAfter, dataAfter]
            by_cases complete : (counted f m).fragsDone = (counted f m).fragsNum
            · simp only [complete, ↓reduceIte]
              by_cases called : stop = .readyCallback
              · simp only [called, ↓reduceIte]
                exact ⟨after, rfl, afterAgree, afterRows⟩
              · simp only [called, ↓reduceIte]
                have deleted : AgreeOff f.key after (deleteDataRecord after false f.friendNumber f.id) :=
                  agreeOff_delete f.key
                have gone : rows (deleteDataRecord after false f.friendNumber f.id) f.key =
                    ⟨(rows after f.key).metaRow, none⟩ := rows_delete f.key
                exact ⟨_, rfl, afterAgree.trans deleted, gone.trans (by rw [afterRows])⟩
            · simp only [complete, ↓reduceIte]
              exact ⟨_, rfl, afterAgree, afterRows⟩
    · simp only [ne_eq, blank, not_false_eq_true, ↓reduceIte, bind, Except.bind]
      refine ⟨db, ?_, fun _ _ => rfl, here⟩
      rw [if_pos (by simpa using blank)]
      rfl

/-- What is on disk when the process crashes is `receiveUntil` on the rows of the
fragment's key, and the rows of every other key as they were. -/
theorem insertUntil_receive (limit : BlobLimit) (stop : Statement) (db : Db) (f : InboundFragment) :
    match receiveUntil limit stop f (rows db f.key) with
    | .error fault => insertUntil limit stop db f = .error fault
    | .ok (r, ready) => ∃ db', insertUntil limit stop db f = .ok (db', ready) ∧
        AgreeOff f.key db db' ∧ rows db' f.key = r := by
  rw [insertUntil_eq]
  cases here : rows db f.key with
  | mk metaRow dataRow =>
    have metaHere : (dbLock db).fragmentedMeta.lookup ⟨false, f.friendNumber, f.id⟩ = metaRow :=
      congrArg Rows.metaRow here
    have dataHere : (dbLock db).fragmentedData.lookup ⟨false, f.friendNumber, f.id⟩ = dataRow :=
      congrArg Rows.dataRow here
    have locked : rows (dbLock db) f.key = ⟨metaRow, dataRow⟩ := here
    have same : AgreeOff f.key db (dbLock db) := fun _ _ => rfl
    cases metaRow with
    | some m =>
      simp only [stmtInsertFragmentedDataInbound, stmtInsertFragmentedMetaInbound, metaHere,
        Option.isSome_some, ↓reduceIte, bind, Except.bind]
      cases dataRow with
      | none =>
        have missing : fillUntil stop (dbLock db) f = .ok (dbUnlock (dbLock db), none) := by
          simp [fillUntil, getFragmentsDataRowid, dataHere, pure, Except.pure]
        simp only [receiveUntil, missing]
        split
        · exact ⟨_, rfl, same, locked⟩
        · split
          · exact ⟨_, rfl, same, locked⟩
          · exact ⟨_, rfl, same, locked⟩
      | some d =>
        simp only [receiveUntil]
        by_cases first : stop = .dataInsert
        · simp only [first, true_or, ↓reduceIte]
          exact ⟨_, rfl, same, locked⟩
        · by_cases second : stop = .metaInsert
          · simp only [second, or_true, ↓reduceIte, reduceCtorEq]
            exact ⟨_, rfl, same, locked⟩
          · simp only [first, second, or_self, ↓reduceIte]
            exact fillUntil_deposit locked
    | none =>
      cases dataRow with
      | some d =>
        have refused : stmtInsertFragmentedDataInbound limit (dbLock db) f.friendNumber f.id f.sz
            f.friendNumber f.id = .error .abort := by
          simp only [stmtInsertFragmentedDataInbound, metaHere, zeroblob, insertRow, dataHere,
            Option.isSome_none, Option.isSome_some, Bool.false_eq_true, ↓reduceIte]
          split <;> rfl
        simp only [receiveUntil]
        rw [refused]
        rfl
      | none =>
        by_cases large : limit.val < f.sz
        · have tooBig : (limit.val : Int) < f.sz := by omega
          have refused : stmtInsertFragmentedDataInbound limit (dbLock db) f.friendNumber f.id f.sz
              f.friendNumber f.id = .error .abort := by
            simp [stmtInsertFragmentedDataInbound, metaHere, zeroblob, tooBig, bind, Except.bind]
          simp only [receiveUntil, large, ↓reduceIte]
          rw [refused]
          rfl
        · have small : ¬ (limit.val : Int) < f.sz := by omega
          let blank : DataRow := { message := List.replicate f.sz 0 }
          let withData : Db := { dbLock db with
            fragmentedData := (dbLock db).fragmentedData.insert f.key blank }
          let withMeta : Db := { withData with
            fragmentedMeta := withData.fragmentedMeta.insert f.key (newMeta f) }
          have inserted : stmtInsertFragmentedDataInbound limit (dbLock db) f.friendNumber f.id f.sz
              f.friendNumber f.id = .ok withData := by
            simp [stmtInsertFragmentedDataInbound, metaHere, dataHere, zeroblob, small, insertRow, bind,
              Except.bind, pure, Except.pure, withData, blank, InboundFragment.key]
          have begun : stmtInsertFragmentedMetaInbound withData f.friendNumber f.type f.id (toInt64 f.tm)
              (toInt64 f.tm) (toInt32 f.numParts) f.friendNumber f.id = .ok withMeta := by
            simp [stmtInsertFragmentedMetaInbound, metaHere, insertRow, bind, Except.bind, pure,
              Except.pure, withData, withMeta, newMeta, InboundFragment.key]
          have dataRows : rows withData f.key = ⟨none, some blank⟩ := by
            rw [rows_insert_data, locked]
          have metaRows : rows withMeta f.key = ⟨some (newMeta f), some blank⟩ := by
            rw [rows_insert_meta, dataRows]
          have dataAgree : AgreeOff f.key db withData := same.trans agreeOff_insert_data
          have metaAgree : AgreeOff f.key db withMeta := dataAgree.trans agreeOff_insert_meta
          simp only [receiveUntil, large, ↓reduceIte]
          rw [inserted]
          simp only [bind, Except.bind]
          by_cases first : stop = .dataInsert
          · simp only [first, ↓reduceIte]
            exact ⟨withData, rfl, dataAgree, dataRows⟩
          · simp only [first, ↓reduceIte, begun]
            by_cases second : stop = .metaInsert
            · simp only [second, ↓reduceIte]
              exact ⟨withMeta, rfl, metaAgree, metaRows⟩
            · simp only [second, ↓reduceIte]
              have filled := @fillUntil_deposit stop withMeta f (newMeta f) blank metaRows
              cases outcome : depositUntil stop f (newMeta f) blank with
              | error fault =>
                rw [outcome] at filled
                exact filled
              | ok result =>
                rw [outcome] at filled
                obtain ⟨db', run, agree, after⟩ := filled
                exact ⟨db', run, metaAgree.trans agree, after⟩

/-- `dbInsertInboundFragment` is `receive` on the rows of the fragment's key
and leaves the rows of every other key as they were. -/
theorem dbInsertInboundFragment_receive (limit : BlobLimit) (db : Db) (f : InboundFragment) :
    match receive limit f (rows db f.key) with
    | .error fault => dbInsertInboundFragment limit db f = .error fault
    | .ok (r, ready) => ∃ db', dbInsertInboundFragment limit db f = .ok (db', ready) ∧
        AgreeOff f.key db db' ∧ rows db' f.key = r := by
  rw [← receiveUntil_dataDelete, ← insertUntil_dataDelete]
  exact insertUntil_receive limit .dataDelete db f

theorem receive_of_insert (ran : dbInsertInboundFragment limit db f = .ok (db', ready)) :
    receive limit f (rows db f.key) = .ok (rows db' f.key, ready) ∧ AgreeOff f.key db db' := by
  have agrees := dbInsertInboundFragment_receive limit db f
  cases outcome : receive limit f (rows db f.key) with
  | error fault =>
    rw [outcome] at agrees
    rw [agrees] at ran
    cases ran
  | ok result =>
    rw [outcome] at agrees
    obtain ⟨db₁, run, agree, after⟩ := agrees
    rw [run] at ran
    cases ran
    exact ⟨by rw [after], agree⟩

theorem insert_of_receive {r : Rows} (step : receive limit f (rows db f.key) = .ok (r, ready)) :
    ∃ db', dbInsertInboundFragment limit db f = .ok (db', ready) ∧ AgreeOff f.key db db' ∧
      rows db' f.key = r := by
  have agrees := dbInsertInboundFragment_receive limit db f
  rwa [step] at agrees

theorem insert_returns_iff :
    (∃ result, dbInsertInboundFragment limit db f = .ok result) ↔
      ∃ result, receive limit f (rows db f.key) = .ok result := by
  constructor
  · rintro ⟨⟨db', ready⟩, ran⟩
    exact ⟨_, (receive_of_insert ran).1⟩
  · rintro ⟨⟨r, ready⟩, step⟩
    obtain ⟨db', run, _⟩ := insert_of_receive step
    exact ⟨_, run⟩

end Defragmenter.InboundStore
