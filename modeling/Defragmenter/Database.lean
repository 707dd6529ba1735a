import Defragmenter.Basics
import Defragmenter.Tiling

/-! `database.c` over the SQLite it relies on: two tables keyed by their
primary key, blobs written in place, and the prepared statements with their
positional parameters in the order the `bind_` helpers fill them. A failed
SQLite call ends in `err` or `errSql`, which abort.

The integer casts of the key columns are injective on the values C can pass,
so keys hold the C values themselves; the casts that lose something (`tm` of
the update statement, `numParts`) are kept. -/
namespace Defragmenter.Database
open Tiling

/-- The primary key of both tables. -/
structure Key where
  outbound : Bool
  friendId : Nat
  fragsId : Nat
  deriving DecidableEq, Repr

/-- A row of `fragmented_meta`, its key apart. -/
structure MetaRow where
  type : Int
  timestampFirst : Int
  timestampLast : Int
  fragsDone : Int
  fragsNum : Int
  deriving DecidableEq, Repr

/-- A row of `fragmented_data`, its key apart. -/
structure DataRow where
  message : List UInt8
  confirmed : Option (List UInt8) := none
  receipt : Option Int := none
  deriving DecidableEq, Repr

/-- The client's lock as the store uses it: how many `dbLock` calls are not
yet undone, and whether one came while another was. -/
structure Lock where
  held : Nat := 0
  nested : Bool := false
  deriving DecidableEq, Repr

structure Db where
  fragmentedMeta : AList fun _ : Key => MetaRow := ∅
  fragmentedData : AList fun _ : Key => DataRow := ∅
  lock : Lock := {}

/-- SQLite's length limit, of a blob and of a whole row; it cannot be raised past
`2 ^ 31 - 1`. The other columns of an inbound row, some twenty bytes, are not
counted: there it is the largest blob that `zeroblob` makes and the row takes. -/
abbrev BlobLimit := { limit : Nat // limit < 2 ^ 31 }

/-- The limit of an SQLite built without a setting of its own. -/
def defaultLimit : BlobLimit := ⟨1000000000, by decide⟩

def dbLock (db : Db) : Db :=
  { db with lock := ⟨db.lock.held + 1, db.lock.nested || db.lock.held != 0⟩ }

def dbUnlock (db : Db) : Db :=
  { db with lock := ⟨db.lock.held - 1, db.lock.nested⟩ }

/-- An `INSERT` of one row, which the primary key may refuse. -/
def insertRow {ρ : Type} (table : AList fun _ : Key => ρ) (key : Key) (row : ρ) :
    Except Fault (AList fun _ : Key => ρ) :=
  if (table.lookup key).isSome then .error .abort else .ok (table.insert key row)

/-- The SQL function `zeroblob`. -/
def zeroblob (limit : BlobLimit) (n : Int) : Except Fault (List UInt8) :=
  if limit.val < n then .error .abort else .ok (List.replicate n.toNat 0)

def readBlob (blob : List UInt8) (length off : Nat) : Except Fault (List UInt8) :=
  if off + length ≤ blob.length then .ok ((blob.drop off).take length) else .error .abort

def writeBlob (blob data : List UInt8) (length off : Nat) : Except Fault (List UInt8) :=
  if off + length ≤ blob.length then .ok (overwrite blob off (data.take length)) else .error .abort

/-! ## The prepared statements -/

/-- `SELECT 0, ?, ?, zeroblob(?) WHERE NOT EXISTS` a meta row for `?`, `?`. -/
def stmtInsertFragmentedDataInbound (limit : BlobLimit) (db : Db)
    (friendId fragsId : Nat) (size : Int) (metaFriendId metaFragsId : Nat) : Except Fault Db :=
  if (db.fragmentedMeta.lookup ⟨false, metaFriendId, metaFragsId⟩).isSome then .ok db
  else do
    let message ← zeroblob limit size
    let table ← insertRow db.fragmentedData ⟨false, friendId, fragsId⟩ { message }
    pure { db with fragmentedData := table }

/-- `SELECT 0, ?, ?, ?, ?, ?, 0, ? WHERE NOT EXISTS` a meta row for `?`, `?`. -/
def stmtInsertFragmentedMetaInbound (db : Db) (friendId : Nat) (type : Int) (fragsId : Nat)
    (timestampFirst timestampLast fragsNum : Int) (metaFriendId metaFragsId : Nat) :
    Except Fault Db :=
  if (db.fragmentedMeta.lookup ⟨false, metaFriendId, metaFragsId⟩).isSome then .ok db
  else do
    let table ← insertRow db.fragmentedMeta ⟨false, friendId, fragsId⟩
      { type, timestampFirst, timestampLast, fragsDone := 0, fragsNum }
    pure { db with fragmentedMeta := table }

/-- The rowid names one row of `fragmented_data`; here its key does. -/
def getFragmentsDataRowid (db : Db) (outbound : Bool) (friendNumber id : Nat) : Option Key :=
  if (db.fragmentedData.lookup ⟨outbound, friendNumber, id⟩).isSome
  then some ⟨outbound, friendNumber, id⟩ else none

/-- `UPDATE fragmented_meta SET timestamp_last = max(timestamp_last, ?),
frags_done = frags_done + 1`: its first parameter goes through `bindInt`. -/
def updateFragmentedMetaDone (db : Db) (outbound : Bool) (tm friendNumber id : Nat) :
    Except Fault Db :=
  match db.fragmentedMeta.lookup ⟨outbound, friendNumber, id⟩ with
  | none => .error .abort
  | some row => .ok { db with
      fragmentedMeta := db.fragmentedMeta.insert ⟨outbound, friendNumber, id⟩ { row with
        timestampLast := max row.timestampLast (toInt32 tm)
        fragsDone := row.fragsDone + 1 } }

def deleteDataRecord (db : Db) (outbound : Bool) (friendNumber id : Nat) : Db :=
  { db with fragmentedData := db.fragmentedData.erase ⟨outbound, friendNumber, id⟩ }

/-! ## Receiving -/

/-- The arguments of `dbInsertInboundFragment`. `length` is kept beside `data`
because the caller computes it by a subtraction that may wrap around. -/
structure InboundFragment where
  friendNumber : Nat
  type : Int
  id : Nat
  partNo : Nat
  numParts : Nat
  off : Nat
  sz : Nat
  data : List UInt8
  length : Nat
  tm : Nat
  deriving DecidableEq, Repr

def InboundFragment.key (f : InboundFragment) : Key := ⟨false, f.friendNumber, f.id⟩

/-- The arguments `dbInsertInboundFragment` passes to `msgReadyCb`. -/
structure MsgReady where
  tm1 : Int
  tm2 : Int
  friendNumber : Nat
  type : Int
  message : List UInt8
  deriving DecidableEq, Repr

/-- `SELECT … FROM fragmented_meta JOIN fragmented_data … WHERE outbound=0 AND
friend_id=? AND frags_id=? AND frags_done = frags_num`. -/
def stmtSelectFragmentedInboundDone (db : Db) (friendNumber : Nat) (type : Int) (id : Nat) :
    Option MsgReady :=
  match db.fragmentedMeta.lookup ⟨false, friendNumber, id⟩,
      db.fragmentedData.lookup ⟨false, friendNumber, id⟩ with
  | some row, some data =>
    if row.fragsDone = row.fragsNum then
      some ⟨row.timestampFirst, row.timestampLast, friendNumber, type, data.message⟩
    else none
  | _, _ => none

def dbInsertInboundFragment (limit : BlobLimit) (db : Db) (f : InboundFragment) :
    Except Fault (Db × Option MsgReady) := do
  let db := dbLock db
  let db ← stmtInsertFragmentedDataInbound limit db f.friendNumber f.id f.sz f.friendNumber f.id
  let db ← stmtInsertFragmentedMetaInbound db f.friendNumber f.type f.id (toInt64 f.tm)
    (toInt64 f.tm) (toInt32 f.numParts) f.friendNumber f.id
  match getFragmentsDataRowid db false f.friendNumber f.id with
  | none => pure (dbUnlock db, none) -- record is ready, must be a late duplicate
  | some rowid =>
    match db.fragmentedData.lookup rowid with
    | none => throw .abort
    | some row =>
      let firstByte ← readBlob row.message 1 f.off
      -- duplicate fragment received; this return leaves the lock taken
      if firstByte ≠ [0] then pure (db, none)
      else
        let message ← writeBlob row.message f.data (f.length % 2 ^ 32) f.off
        let db := { db with
          fragmentedData := db.fragmentedData.insert rowid { row with message } }
        let db ← updateFragmentedMetaDone db false f.tm f.friendNumber f.id
        match stmtSelectFragmentedInboundDone db f.friendNumber f.type f.id with
        | some ready => pure (dbUnlock (deleteDataRecord db false f.friendNumber f.id), some ready)
        | none => pure (dbUnlock db, none)

/-! ## Sending -/

/-- The bytes of an integer column in SQLite's record format. -/
def integerBytes (n : Int) : Nat :=
  if n = 0 ∨ n = 1 then 0 -- these two are serial types of their own
  else if -2 ^ 7 ≤ n ∧ n < 2 ^ 7 then 1
  else if -2 ^ 15 ≤ n ∧ n < 2 ^ 15 then 2
  else if -2 ^ 23 ≤ n ∧ n < 2 ^ 23 then 3
  else if -2 ^ 31 ≤ n ∧ n < 2 ^ 31 then 4
  else if -2 ^ 47 ≤ n ∧ n < 2 ^ 47 then 6
  else 8

/-- The bytes of a blob column, its serial type in the record's header included.
That is a varint, of at most five bytes where a blob is within any limit. -/
def blobBytes (length : Nat) : Nat :=
  let serialType := 2 * length + 12
  length +
    if serialType < 2 ^ 7 then 1
    else if serialType < 2 ^ 14 then 2
    else if serialType < 2 ^ 21 then 3
    else if serialType < 2 ^ 28 then 4
    else 5

/-- The row of an outgoing message as one record: behind the header's length and
the serial types of the four integers come the six columns, `outbound` being 1. -/
def outboundRowBytes (friendNumber id length confirmed receipt : Nat) : Nat :=
  5 + integerBytes 1 + integerBytes (toInt32 friendNumber) + integerBytes (toInt64 id) +
    blobBytes length + blobBytes confirmed + integerBytes (toInt32 receipt)

def dbInsertOutboundMessage (limit : BlobLimit) (db : Db) (friendNumber : Nat) (type : Int)
    (id tm numParts : Nat) (data : List UInt8) (receipt : Nat) : Except Fault Db := do
  let db := dbLock db
  let table ← insertRow db.fragmentedMeta ⟨true, friendNumber, id⟩
    { type, timestampFirst := toInt64 tm, timestampLast := toInt64 tm, fragsDone := 0,
      fragsNum := toInt32 numParts }
  let db := { db with fragmentedMeta := table }
  if limit.val < data.length then throw .abort
  let confirmed ← zeroblob limit (toInt32 numParts)
  if limit.val < outboundRowBytes friendNumber id data.length confirmed.length receipt then throw .abort
  let table ← insertRow db.fragmentedData ⟨true, friendNumber, id⟩
    { message := data, confirmed := some confirmed, receipt := some (toInt32 receipt) }
  pure (dbUnlock { db with fragmentedData := table })

def dbOutboundPartConfirmed (db : Db) (friendNumber id partNo tm : Nat) : Except Fault Db := do
  let db := dbLock db
  match getFragmentsDataRowid db true friendNumber id with
  | none => throw .abort
  | some rowid =>
    match db.fragmentedData.lookup rowid with
    | none => throw .abort
    | some row =>
      match row.confirmed with
      | none => throw .abort -- a NULL column cannot be opened as a blob
      | some blob =>
        let confirmed ← writeBlob blob [1] 1 (toUnsigned ((partNo : Int) - 1))
        let db := { db with
          fragmentedData := db.fragmentedData.insert rowid { row with confirmed := some confirmed } }
        let db ← updateFragmentedMetaDone db true tm friendNumber id
        pure (dbUnlock db)

/-- The arguments `dbLoadPendingSentMessages` passes to its callback. -/
structure PendingSent where
  friendNumber : Nat
  type : Int
  id : Nat
  tm1 : Int
  tm2 : Int
  numConfirmed : Nat
  numParts : Nat
  message : List UInt8
  confirmed : List UInt8
  receipt : Int
  deriving DecidableEq, Repr

/-- `SELECT … FROM fragmented_meta JOIN fragmented_data … WHERE outbound=1`. -/
def stmtSelectFragmentedOutboundPending (db : Db) : List PendingSent :=
  db.fragmentedMeta.entries.filterMap fun entry =>
    if entry.1.outbound then
      (db.fragmentedData.lookup entry.1).map fun data => {
        friendNumber := entry.1.friendId
        type := entry.2.type
        id := entry.1.fragsId
        tm1 := entry.2.timestampFirst
        tm2 := entry.2.timestampLast
        numConfirmed := toUnsigned entry.2.fragsDone
        numParts := toUnsigned entry.2.fragsNum
        message := data.message
        confirmed := data.confirmed.getD []
        receipt := data.receipt.getD 0 }
    else none

def dbClearOutboundPending (db : Db) (friendNumber id : Nat) : Db :=
  dbUnlock (deleteDataRecord (dbLock db) true friendNumber id)

end Defragmenter.Database
