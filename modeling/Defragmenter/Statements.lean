import Mathlib.Logic.Function.Basic
import Defragmenter.Basics

/-! The prepared statements. Each is kept in a static variable once it is
prepared, for the connection of that time, and is finalized when the library is
closed. The one in `readDbName` is finalized at once, but its variable is not
cleared, and neither is that of the receipts when they are freed. So a process
that opens a database once, and closes it once, makes no use of anything that is
not there, in every order of calls and with clients that send from inside a
callback, and one that does it again does. -/
namespace Defragmenter.Statements

/-- The static variables, the one in `readDbName` last. -/
inductive Slot where
  | insertFragmentedDataInbound
  | insertFragmentedMetaInbound
  | selectRowidFromFragmentedMeta
  | insertFragmentedDataOutbound
  | insertFragmentedMetaOutbound
  | updateFragmentedMeta
  | selectFragmentedInboundDone
  | selectFragmentedOutboundPending
  | deleteFragmentedData
  | databaseList
  deriving DecidableEq

inductive Connection where
  | ofClient (db : Nat)
  | inMemory (n : Nat)
  deriving DecidableEq

/-- A statement that is not finalized. -/
structure Stmt where
  connection : Connection
  /-- It was stepped and not reset since. -/
  stepped : Bool := false
  deriving DecidableEq

/-- What a variable holds. No two hold the same statement. -/
inductive Pointer where
  | null
  | live (stmt : Stmt)
  | dangling
  deriving DecidableEq

def Pointer.connection : Pointer → Option Connection
  | .live stmt => some stmt.connection
  | _ => none

inductive Misuse where
  /-- The database library reports it, and `errSql` or `err` aborts. -/
  | reported
  /-- A null pointer is followed, or an array is written that has no elements. -/
  | unallocated
  /-- What was freed or finalized is used. -/
  | dangling
  deriving DecidableEq

/-- The variables of the database module. -/
structure Database where
  db : Option Connection := none
  dbInMemory : Bool := false
  /-- How many databases were opened in memory. -/
  opened : Nat := 0
  static : Slot → Pointer := fun _ => .null

def Database.set (d : Database) (slot : Slot) (p : Pointer) : Database :=
  { d with static := Function.update d.static slot p }

/-! ## What the database library is asked for -/

/-- A null pointer is a misuse that is reported, one to a finalized statement is not. -/
def stmtAt (slot : Slot) (d : Database) : Except Misuse Stmt :=
  match d.static slot with
  | .null => .error .reported
  | .live stmt => .ok stmt
  | .dangling => .error .dangling

def prepare (slot : Slot) (d : Database) : Except Misuse Database :=
  if d.static slot = .null then
    match d.db with
    | none => .error .reported
    | some connection => .ok (d.set slot (.live { connection }))
  else .ok d

/-- A statement that is not reset cannot be bound. -/
def bind (slot : Slot) (d : Database) : Except Misuse Database := do
  let stmt ← stmtAt slot d
  if stmt.stepped then .error .reported else .ok d

def sqlite3Step (slot : Slot) (d : Database) : Except Misuse Database := do
  let stmt ← stmtAt slot d
  .ok (d.set slot (.live { stmt with stepped := true }))

def resetStmt (slot : Slot) (d : Database) : Except Misuse Database := do
  let stmt ← stmtAt slot d
  .ok (d.set slot (.live { stmt with stepped := false }))

/-- The variable is not cleared with it. -/
def sqlite3Finalize (slot : Slot) (d : Database) : Except Misuse Database := do
  let _ ← stmtAt slot d
  .ok (d.set slot .dangling)

/-- `execPrepared`, `execPreparedInt64` and `execPreparedText`, which all reset what they step. -/
def execPrepared (slot : Slot) (d : Database) : Except Misuse Database := sqlite3Step slot d >>= resetStmt slot

/-- A statement is prepared, bound and executed. -/
def execute (slot : Slot) (d : Database) : Except Misuse Database := do
  let d ← prepare slot d
  let d ← bind slot d
  execPrepared slot d

/-! ## What the database module asks for -/

def getFragmentsDataRowid : Database → Except Misuse Database := execute .selectRowidFromFragmentedMeta

def updateFragmentedMetaDone : Database → Except Misuse Database := execute .updateFragmentedMeta

def deleteDataRecord : Database → Except Misuse Database := execute .deleteFragmentedData

def dbInsertOutboundMessage (d : Database) : Except Misuse Database :=
  execute .insertFragmentedMetaOutbound d >>= execute .insertFragmentedDataOutbound

/-- What becomes of a fragment that comes in. -/
inductive Fragment where
  /-- Its message was handed over before, or its place is taken. -/
  | ignored
  | stored
  /-- It is the last one, and the client sends so many long messages when it is
  handed what it completes. -/
  | completing (answers : Nat)

def Fragment.answers : Fragment → Nat
  | .completing answers => answers
  | _ => 0

/-- The done-query stands at its row while the client is called. -/
def dbInsertInboundFragment (fragment : Fragment) (msgReadyCb : Nat → Database → Except Misuse Database)
    (d : Database) : Except Misuse Database := do
  let d ← execute .insertFragmentedDataInbound d
  let d ← execute .insertFragmentedMetaInbound d
  let d ← getFragmentsDataRowid d
  match fragment with
  | .ignored => pure d
  | .stored =>
    let d ← updateFragmentedMetaDone d
    let d ← prepare .selectFragmentedInboundDone d
    let d ← bind .selectFragmentedInboundDone d
    let d ← sqlite3Step .selectFragmentedInboundDone d
    resetStmt .selectFragmentedInboundDone d
  | .completing answers =>
    let d ← updateFragmentedMetaDone d
    let d ← prepare .selectFragmentedInboundDone d
    let d ← bind .selectFragmentedInboundDone d
    let d ← sqlite3Step .selectFragmentedInboundDone d
    let d ← msgReadyCb answers d
    let d ← resetStmt .selectFragmentedInboundDone d
    deleteDataRecord d

def dbOutboundPartConfirmed (d : Database) : Except Misuse Database :=
  getFragmentsDataRowid d >>= updateFragmentedMetaDone

/-- The rows one by one; those that are no use are dropped while the statement stands at them. -/
def loadRows : List Bool → Database → Except Misuse Database
  | [], d => sqlite3Step .selectFragmentedOutboundPending d
  | dropped :: rest, d => do
    let d ← sqlite3Step .selectFragmentedOutboundPending d
    let d ← if dropped then deleteDataRecord d else pure d
    loadRows rest d

def dbLoadPendingSentMessages (rows : List Bool) (d : Database) : Except Misuse Database := do
  let d ← prepare .selectFragmentedOutboundPending d
  let d ← loadRows rows d
  resetStmt .selectFragmentedOutboundPending d

/-! ## Opening and closing -/

/-- The schema is created without a prepared statement. -/
def createSchema (d : Database) : Except Misuse Database := if d.db.isSome then .ok d else .error .reported

def readDbName (d : Database) : Except Misuse Database := do
  let d ← prepare .databaseList d
  let d ← execPrepared .databaseList d
  sqlite3Finalize .databaseList d

def initDb (d : Database) : Except Misuse Database := createSchema d >>= readDbName

def dbInitialize (db : Nat) (d : Database) : Except Misuse Database := initDb { d with db := some (.ofClient db) }

def dbInitializeInMemory (d : Database) : Except Misuse Database :=
  initDb { d with db := some (.inMemory d.opened), opened := d.opened + 1, dbInMemory := true }

def destroyPreparedStatement (d : Database) (slot : Slot) : Except Misuse Database :=
  if d.static slot = .null then .ok d
  else do
    let d ← sqlite3Finalize slot d
    pure (d.set slot .null)

/-- All but the one in `readDbName`, in their order. -/
def kept : List Slot := [.insertFragmentedDataInbound, .insertFragmentedMetaInbound, .selectRowidFromFragmentedMeta,
  .insertFragmentedDataOutbound, .insertFragmentedMetaOutbound, .updateFragmentedMeta, .selectFragmentedInboundDone,
  .selectFragmentedOutboundPending, .deleteFragmentedData]

def destroyPreparedStatements (d : Database) : Except Misuse Database := kept.foldlM destroyPreparedStatement d

/-- A database cannot be closed while there are statements for it. -/
def sqlite3Close (d : Database) : Except Misuse Database :=
  if d.db.isSome ∧ ∃ slot ∈ Slot.databaseList :: kept, (d.static slot).connection = d.db then .error .reported
  else .ok d

def dbUninitialize (d : Database) : Except Misuse Database := do
  let d ← destroyPreparedStatements d
  let d ← if d.dbInMemory then sqlite3Close d else pure d
  pure { d with db := none, dbInMemory := false }

/-! ## What the client and the base library call -/

/-- The array of the receipts. -/
inductive Receipts where
  | unallocated
  | allocated
  | dangling
  deriving DecidableEq

/-- A record is read or written. -/
def Receipts.access : Receipts → Except Misuse Receipts
  | .unallocated => .error .unallocated
  | .allocated => .ok .allocated
  | .dangling => .error .dangling

/-- A null pointer may be freed, and the variable is not cleared. -/
def receiptsUninitialize : Receipts → Except Misuse Receipts
  | .unallocated => .ok .unallocated
  | .allocated => .ok .dangling
  | .dangling => .error .dangling

structure Process where
  initializedApi : Bool := false
  initializedDb : Bool := false
  receipts : Receipts := .unallocated
  database : Database := {}

inductive Call where
  /-- The rows that are there, should they be loaded now. -/
  | initializeApi (rows : List Bool)
  | initializeDb (db : Nat) (rows : List Bool)
  | initializeDbInmemory (rows : List Bool)
  | uninitializeBoth
  | message (fragment : Fragment)
  /-- A long message, of which the base library takes a part. -/
  | send
  /-- A receipt that is found. The client may send when it completes a message. -/
  | receipt (completes : Option Nat)
  | periodic

/-- What follows once the interface and the database are both there. Receipts
that are there already are left behind. -/
def initializeBoth (rows : List Bool) (x : Process) : Except Misuse Process :=
  if x.initializedApi && x.initializedDb then do
    let d ← dbLoadPendingSentMessages rows x.database
    pure { x with receipts := .allocated, database := d }
  else .ok x

/-- Without the interface there is no function to give a part to. -/
def friendSendMessageLong (x : Process) (d : Database) : Except Misuse Database :=
  if x.initializedApi then do
    let _ ← x.receipts.access
    dbInsertOutboundMessage d
  else .error .unallocated

/-- What the client does when it is called. -/
def clientSends (x : Process) (answers : Nat) (d : Database) : Except Misuse Database :=
  (List.range answers).foldlM (fun d _ => friendSendMessageLong x d) d

def tryProcessReceipt (completes : Option Nat) (x : Process) : Except Misuse Database := do
  let _ ← x.receipts.access
  let d ← dbOutboundPartConfirmed x.database
  match completes with
  | none => pure d
  | some answers =>
    let d ← clientSends x answers d
    deleteDataRecord d

def call : Call → Process → Except Misuse Process
  | .initializeApi rows, x => initializeBoth rows { x with initializedApi := true }
  | .initializeDb db rows, x => do
    let d ← dbInitialize db x.database
    initializeBoth rows { x with database := d, initializedDb := true }
  | .initializeDbInmemory rows, x => do
    let d ← dbInitializeInMemory x.database
    initializeBoth rows { x with database := d, initializedDb := true }
  | .uninitializeBoth, x => do
    let receipts ← receiptsUninitialize x.receipts
    let d ← dbUninitialize x.database
    pure { receipts, database := d }
  | .message fragment, x => do
    let d ← dbInsertInboundFragment fragment (clientSends x) x.database
    pure { x with database := d }
  | .send, x => do
    let d ← friendSendMessageLong x x.database
    pure { x with database := d }
  | .receipt completes, x => do
    let d ← tryProcessReceipt completes x
    pure { x with database := d }
  | .periodic, x =>
    if x.initializedApi && x.initializedDb then do
      let _ ← x.receipts.access
      pure x
    else .ok x

def calls (cs : List Call) (x : Process) : Except Misuse Process := cs.foldlM (fun x c => call c x) x

/-- Before a database is opened, while it is open, and after that. -/
inductive Phase where
  | fresh (api : Bool)
  | running (api : Bool)
  /-- The receipts were freed with it, or were never allocated. -/
  | closed (freed : Bool)
  deriving DecidableEq

/-- A database is opened once, used while the interface is there, and closed once. -/
def Phase.after : Phase → Call → Option Phase
  | .fresh _, .initializeApi _ => some (.fresh true)
  | .fresh api, .initializeDb .. => some (.running api)
  | .fresh api, .initializeDbInmemory _ => some (.running api)
  | .fresh _, .uninitializeBoth => some (.fresh false)
  | .running _, .initializeApi _ => some (.running true)
  | .running api, .uninitializeBoth => some (.closed api)
  | .running api, .message fragment => if api || fragment.answers = 0 then some (.running api) else none
  | .running true, .send => some (.running true)
  | .running true, .receipt _ => some (.running true)
  | .closed freed, .initializeApi _ => some (.closed freed)
  | .closed false, .uninitializeBoth => some (.closed false)
  | p, .periodic => some p
  | _, _ => none

variable {d d' : Database} {x x' : Process} {slot : Slot} {stmt : Stmt} {p p' : Phase} {c : Call} {cs : List Call}
  {held : Option Slot}

/-! ## While a database is open -/

/-- Every statement is for the database that is open, and none but `held` is
not reset. -/
structure Open (held : Option Slot) (d : Database) : Prop where
  connected : ∃ connection, d.db = some connection
  cached : ∀ slot, slot ≠ .databaseList → d.static slot ≠ .null →
    ∃ stmt, d.static slot = .live stmt ∧ d.db = some stmt.connection ∧ (stmt.stepped = true ↔ held = some slot)
  there : ∀ slot ∈ held, slot ≠ .databaseList ∧ d.static slot ≠ .null
  dangling : d.static .databaseList = .dangling

/-- One variable is set. -/
theorem Open.set {held' : Option Slot} (opened : Open held d) (own : slot ≠ .databaseList)
    (connection : d.db = some stmt.connection) (stepped : stmt.stepped = true ↔ held' = some slot)
    (others : ∀ slot' ≠ slot, held' = some slot' ↔ held = some slot') : Open held' (d.set slot (.live stmt)) where
  connected := opened.connected
  cached slot' other set := by
    by_cases same : slot' = slot
    · subst same
      exact ⟨stmt, Function.update_self .., connection, stepped⟩
    · have kept : (d.set slot (.live stmt)).static slot' = d.static slot' := Function.update_of_ne same ..
      rw [kept] at set ⊢
      obtain ⟨stmt', here, connection', stepped'⟩ := opened.cached slot' other set
      exact ⟨stmt', here, connection', stepped'.trans (others slot' same).symm⟩
  there slot' member := by
    by_cases same : slot' = slot
    · subst same
      refine ⟨own, ?_⟩
      simp [Database.set]
    · have kept : (d.set slot (.live stmt)).static slot' = d.static slot' := Function.update_of_ne same ..
      rw [kept]
      exact opened.there slot' ((others slot' same).mp member)
  dangling := (Function.update_of_ne (Ne.symm own) ..).trans opened.dangling

theorem Open.stmtAt (opened : Open held d) (own : slot ≠ .databaseList) (set : d.static slot ≠ .null) :
    ∃ stmt, Statements.stmtAt slot d = .ok stmt ∧ d.db = some stmt.connection ∧
      (stmt.stepped = true ↔ held = some slot) := by
  obtain ⟨stmt, here, rest⟩ := opened.cached slot own set
  refine ⟨stmt, ?_, rest⟩
  rw [Statements.stmtAt, here]

theorem Open.prepare (opened : Open held d) (slot : Slot) (own : slot ≠ .databaseList := by decide)
    (free : held ≠ some slot := by decide) :
    ∃ d', Statements.prepare slot d = .ok d' ∧ Open held d' ∧ d'.static slot ≠ .null := by
  unfold Statements.prepare
  by_cases null : d.static slot = .null
  · obtain ⟨connection, here⟩ := opened.connected
    simp only [null, ↓reduceIte, here]
    refine ⟨_, rfl, opened.set own here ?_ fun _ _ => Iff.rfl, by simp [Database.set]⟩
    simp [free]
  · simp only [null, ↓reduceIte]
    exact ⟨d, rfl, opened, null⟩

theorem Open.bind (opened : Open held d) (own : slot ≠ .databaseList) (free : held ≠ some slot)
    (set : d.static slot ≠ .null) : Statements.bind slot d = .ok d := by
  obtain ⟨stmt, here, _, stepped⟩ := opened.stmtAt own set
  refine bind_ok.mpr ⟨stmt, here, if_neg ?_⟩
  rw [stepped]
  exact free

theorem Open.step (opened : Open held d) (own : slot ≠ .databaseList) (set : d.static slot ≠ .null)
    (alone : ∀ slot' ≠ slot, held ≠ some slot') :
    ∃ d', sqlite3Step slot d = .ok d' ∧ Open (some slot) d' := by
  obtain ⟨stmt, here, connection, _⟩ := opened.stmtAt own set
  refine ⟨_, bind_ok.mpr ⟨stmt, here, rfl⟩, opened.set own connection (by simp) fun slot' other => ?_⟩
  simp [alone slot' other, Ne.symm other]

theorem Open.reset (opened : Open (some slot) d) : ∃ d', resetStmt slot d = .ok d' ∧ Open none d' := by
  obtain ⟨own, set⟩ := opened.there slot rfl
  obtain ⟨stmt, here, connection, _⟩ := opened.stmtAt own set
  refine ⟨_, bind_ok.mpr ⟨stmt, here, rfl⟩, opened.set own connection (by simp) fun slot' other => ?_⟩
  simp [Ne.symm other]

/-- A statement that is executed is reset again, whichever other one is held. -/
theorem Open.execute (opened : Open held d) (slot : Slot) (own : slot ≠ .databaseList := by decide)
    (free : held ≠ some slot := by decide) :
    ∃ d', Statements.execute slot d = .ok d' ∧ Open held d' := by
  obtain ⟨d₁, prepared, opened₁, set⟩ := opened.prepare slot own free
  obtain ⟨stmt, here, connection, stepped⟩ := opened₁.stmtAt own set
  have again : Statements.stmtAt slot (d₁.set slot (.live { stmt with stepped := true })) =
      .ok { stmt with stepped := true } := by
    simp [Statements.stmtAt, Database.set]
  have executed : execPrepared slot d₁ = .ok (d₁.set slot (.live { stmt with stepped := false })) := by
    refine bind_ok.mpr ⟨_, bind_ok.mpr ⟨stmt, here, rfl⟩, bind_ok.mpr ⟨_, again, ?_⟩⟩
    simp [Database.set]
  refine ⟨_, bind_ok.mpr ⟨d₁, prepared, bind_ok.mpr ⟨d₁, opened₁.bind own free set, executed⟩⟩, ?_⟩
  refine opened₁.set own connection ?_ fun _ _ => Iff.rfl
  simp [free]

theorem Open.sent (opened : Open held d) (free : held ≠ some .insertFragmentedMetaOutbound := by decide)
    (free' : held ≠ some .insertFragmentedDataOutbound := by decide) :
    ∃ d', dbInsertOutboundMessage d = .ok d' ∧ Open held d' := by
  obtain ⟨d₁, first, opened₁⟩ := opened.execute .insertFragmentedMetaOutbound (by decide) free
  obtain ⟨d₂, second, opened₂⟩ := opened₁.execute .insertFragmentedDataOutbound (by decide) free'
  exact ⟨d₂, bind_ok.mpr ⟨d₁, first, second⟩, opened₂⟩

/-- There is an interface, and the receipts are kept. -/
structure Process.Ready (x : Process) : Prop where
  api : x.initializedApi = true
  receipts : x.receipts = .allocated

theorem Open.sends_long (opened : Open held d) (ready : x.Ready)
    (free : held ≠ some .insertFragmentedMetaOutbound := by decide)
    (free' : held ≠ some .insertFragmentedDataOutbound := by decide) :
    ∃ d', friendSendMessageLong x d = .ok d' ∧ Open held d' := by
  obtain ⟨d', sent, opened'⟩ := opened.sent free free'
  refine ⟨d', ?_, opened'⟩
  simp only [friendSendMessageLong, ready.api, ready.receipts, ↓reduceIte]
  exact sent

/-- A client sends from inside a callback. -/
theorem Open.clientSends (opened : Open held d) (ready : x.Ready) (answers : Nat)
    (free : held ≠ some .insertFragmentedMetaOutbound := by decide)
    (free' : held ≠ some .insertFragmentedDataOutbound := by decide) :
    ∃ d', Statements.clientSends x answers d = .ok d' ∧ Open held d' := by
  unfold Statements.clientSends
  induction List.range answers generalizing d with
  | nil => exact ⟨_, rfl, opened⟩
  | cons _ rest ih =>
    obtain ⟨d₁, first, opened₁⟩ := opened.sends_long ready free free'
    obtain ⟨d', later, opened'⟩ := ih opened₁
    rw [List.foldlM_cons]
    exact ⟨d', bind_ok.mpr ⟨d₁, first, later⟩, opened'⟩

/-- The done-query stands at its row while the client is handed the message. -/
theorem Open.select (opened : Open none d) : ∃ d₁, Statements.prepare .selectFragmentedInboundDone d = .ok d₁ ∧
    Statements.bind .selectFragmentedInboundDone d₁ = .ok d₁ ∧
    ∃ d₂, sqlite3Step .selectFragmentedInboundDone d₁ = .ok d₂ ∧ Open (some .selectFragmentedInboundDone) d₂ := by
  obtain ⟨d₁, prepared, opened₁, set⟩ := opened.prepare .selectFragmentedInboundDone
  obtain ⟨d₂, stepped, opened₂⟩ := opened₁.step (by decide) set fun _ _ => (Option.some_ne_none _).symm
  exact ⟨d₁, prepared, opened₁.bind (by decide) (by decide) set, d₂, stepped, opened₂⟩

/-- What a fragment asks for until the client is called. -/
theorem Open.inserted (opened : Open none d) (fragment : Fragment)
    (msgReadyCb : Nat → Database → Except Misuse Database) :
    (fragment.answers = 0 ∧ ∃ d', dbInsertInboundFragment fragment msgReadyCb d = .ok d' ∧ Open none d') ∨
      ∃ n d', fragment = .completing n ∧ Open (some .selectFragmentedInboundDone) d' ∧
        dbInsertInboundFragment fragment msgReadyCb d = (do
          let d ← msgReadyCb n d'
          let d ← resetStmt .selectFragmentedInboundDone d
          deleteDataRecord d) := by
  obtain ⟨d₁, data, opened₁⟩ := opened.execute .insertFragmentedDataInbound
  obtain ⟨d₂, counted, opened₂⟩ := opened₁.execute .insertFragmentedMetaInbound
  obtain ⟨d₃, rowid, opened₃⟩ := opened₂.execute .selectRowidFromFragmentedMeta
  obtain ⟨d₄, updated, opened₄⟩ := opened₃.execute .updateFragmentedMeta
  obtain ⟨d₅, prepared, bound, d₆, stepped, opened₆⟩ := opened₄.select
  have before : ∀ rest : Database → Except Misuse Database,
      (Statements.execute .insertFragmentedDataInbound d >>= fun d =>
        Statements.execute .insertFragmentedMetaInbound d >>= fun d => getFragmentsDataRowid d >>= rest) = rest d₃ := by
    intro rest
    simp only [getFragmentsDataRowid, data, counted, rowid, Bind.bind, Except.bind]
  have queried : ∀ rest : Database → Except Misuse Database,
      (updateFragmentedMetaDone d₃ >>= fun d => Statements.prepare .selectFragmentedInboundDone d >>= fun d =>
        Statements.bind .selectFragmentedInboundDone d >>= fun d =>
          sqlite3Step .selectFragmentedInboundDone d >>= rest) = rest d₆ := by
    intro rest
    simp only [updateFragmentedMetaDone, updated, prepared, bound, stepped, Bind.bind, Except.bind]
  cases fragment with
  | ignored => exact .inl ⟨rfl, d₃, before _, opened₃⟩
  | stored =>
    obtain ⟨d₇, reset, opened₇⟩ := opened₆.reset
    exact .inl ⟨rfl, d₇, (before _).trans ((queried _).trans reset), opened₇⟩
  | completing n => exact .inr ⟨n, d₆, rfl, opened₆, (before _).trans (queried _)⟩

theorem Open.message {msgReadyCb : Nat → Database → Except Misuse Database} (opened : Open none d) (fragment : Fragment)
    (answers : ∀ {d}, Open (some .selectFragmentedInboundDone) d → ∃ d', msgReadyCb fragment.answers d = .ok d' ∧
      Open (some .selectFragmentedInboundDone) d') :
    ∃ d', dbInsertInboundFragment fragment msgReadyCb d = .ok d' ∧ Open none d' := by
  obtain ⟨_, there⟩ | ⟨n, d₁, rfl, stands, goes⟩ := opened.inserted fragment msgReadyCb
  · exact there
  · obtain ⟨d₂, sent, opened₂⟩ := answers stands
    obtain ⟨d₃, reset, opened₃⟩ := opened₂.reset
    obtain ⟨d₄, deleted, opened₄⟩ := opened₃.execute .deleteFragmentedData
    exact ⟨d₄, goes.trans (bind_ok.mpr ⟨d₂, sent, bind_ok.mpr ⟨d₃, reset, deleted⟩⟩), opened₄⟩

theorem Open.receipt (opened : Open none x.database) (ready : x.Ready) (completes : Option Nat) :
    ∃ d', tryProcessReceipt completes x = .ok d' ∧ Open none d' := by
  obtain ⟨d₁, rowid, opened₁⟩ := opened.execute .selectRowidFromFragmentedMeta
  obtain ⟨d₂, updated, opened₂⟩ := opened₁.execute .updateFragmentedMeta
  have there : x.receipts.access = .ok .allocated := by
    rw [ready.receipts]
    rfl
  have confirmed : dbOutboundPartConfirmed x.database = .ok d₂ := bind_ok.mpr ⟨d₁, rowid, updated⟩
  cases completes with
  | none => exact ⟨d₂, bind_ok.mpr ⟨_, there, bind_ok.mpr ⟨d₂, confirmed, rfl⟩⟩, opened₂⟩
  | some answers =>
    obtain ⟨d₃, sent, opened₃⟩ := opened₂.clientSends ready answers
    obtain ⟨d₄, deleted, opened₄⟩ := opened₃.execute .deleteFragmentedData
    exact ⟨d₄, bind_ok.mpr ⟨_, there, bind_ok.mpr ⟨d₂, confirmed, bind_ok.mpr ⟨d₃, sent, deleted⟩⟩⟩, opened₄⟩

/-- The statement for the pending messages is stepped again and again, without a
binding, while rows are dropped. -/
theorem Open.rows (rows : List Bool) : ∀ {d : Database} {held : Option Slot}, Open held d →
    (∀ slot ≠ Slot.selectFragmentedOutboundPending, held ≠ some slot) →
    d.static .selectFragmentedOutboundPending ≠ .null →
    ∃ d', loadRows rows d = .ok d' ∧ Open (some .selectFragmentedOutboundPending) d' := by
  induction rows with
  | nil =>
    intro d held opened alone set
    exact opened.step (by decide) set alone
  | cons dropped rest ih =>
    intro d held opened alone set
    obtain ⟨d₁, stepped, opened₁⟩ := opened.step (by decide) set alone
    have goes : ∀ {d₂ : Database}, Open (some .selectFragmentedOutboundPending) d₂ →
        ∃ d', loadRows rest d₂ = .ok d' ∧ Open (some .selectFragmentedOutboundPending) d' := fun opened₂ =>
      ih opened₂ (fun slot other same => other (Option.some.inj same).symm) (opened₂.there _ rfl).2
    cases dropped with
    | false =>
      obtain ⟨d', later, opened'⟩ := goes opened₁
      exact ⟨d', bind_ok.mpr ⟨d₁, stepped, later⟩, opened'⟩
    | true =>
      obtain ⟨d₂, deleted, opened₂⟩ := opened₁.execute .deleteFragmentedData
      obtain ⟨d', later, opened'⟩ := goes opened₂
      exact ⟨d', bind_ok.mpr ⟨d₁, stepped, bind_ok.mpr ⟨d₂, deleted, later⟩⟩, opened'⟩

theorem Open.loads (opened : Open none d) (rows : List Bool) :
    ∃ d', dbLoadPendingSentMessages rows d = .ok d' ∧ Open none d' := by
  obtain ⟨d₁, prepared, opened₁, set⟩ := opened.prepare .selectFragmentedOutboundPending
  obtain ⟨d₂, loaded, opened₂⟩ := Open.rows rows opened₁ (fun _ _ => (Option.some_ne_none _).symm) set
  obtain ⟨d₃, reset, opened₃⟩ := opened₂.reset
  exact ⟨d₃, bind_ok.mpr ⟨d₁, prepared, bind_ok.mpr ⟨d₂, loaded, reset⟩⟩, opened₃⟩

/-! ## Opening and closing once -/

/-- No database is open, and no statement is there. -/
structure Shut (last : Pointer) (d : Database) : Prop where
  closed : d.db = none
  cleared : ∀ slot, slot ≠ .databaseList → d.static slot = .null
  last : d.static .databaseList = last

variable {last : Pointer} {rows : List Bool}

/-- Without a database nothing can be prepared. -/
theorem Shut.execute (shut : Shut last d) (own : slot ≠ .databaseList) :
    Statements.execute slot d = .error .reported := by
  have null := shut.cleared slot own
  have closed := shut.closed
  simp [Statements.execute, Statements.prepare, null, closed, Bind.bind, Except.bind]

/-- The first database: the statement that lists it is used up, and its variable is left. -/
theorem readDbName_null (null : d.static .databaseList = .null) {connection : Connection}
    (opened : d.db = some connection) : initDb d = .ok (d.set .databaseList .dangling) := by
  simp [initDb, createSchema, opened, readDbName, Statements.prepare, null, execPrepared, sqlite3Step, resetStmt,
    sqlite3Finalize, Statements.stmtAt, Database.set, Bind.bind, Except.bind]

/-- The second one: the statement is used though it is finalized. -/
theorem readDbName_dangling (dangling : d.static .databaseList = .dangling) {connection : Connection}
    (opened : d.db = some connection) : initDb d = .error .dangling := by
  simp [initDb, createSchema, opened, readDbName, Statements.prepare, dangling, execPrepared, sqlite3Step,
    Statements.stmtAt, Bind.bind, Except.bind]

theorem Shut.opens (shut : Shut .null d) {connection : Connection} (opened : d'.db = some connection)
    (static : d'.static = d.static) : ∃ d'', initDb d' = .ok d'' ∧ Open none d'' := by
  have null : d'.static .databaseList = .null := by rw [static, shut.last]
  refine ⟨_, readDbName_null null opened, ⟨connection, opened⟩, fun slot own set => ?_, by simp, by simp [Database.set]⟩
  have kept : (d'.set .databaseList .dangling).static slot = d'.static slot := Function.update_of_ne own ..
  rw [kept, static, shut.cleared slot own] at set
  exact absurd rfl set

/-- What is destroyed is cleared, and the rest stays. -/
theorem destroyed (slots : List Slot) : ∀ {d : Database}, (∀ slot ∈ slots, d.static slot ≠ .dangling) →
    ∃ d', slots.foldlM destroyPreparedStatement d = .ok d' ∧ d'.db = d.db ∧
      (∀ slot ∈ slots, d'.static slot = .null) ∧ ∀ slot ∉ slots, d'.static slot = d.static slot := by
  induction slots with
  | nil => exact fun _ => ⟨_, rfl, rfl, by simp, fun _ _ => rfl⟩
  | cons first rest ih =>
    intro d alive
    obtain ⟨d₁, destroyed, db, gone, others⟩ : ∃ d₁, destroyPreparedStatement d first = .ok d₁ ∧ d₁.db = d.db ∧
        d₁.static first = .null ∧ ∀ slot ≠ first, d₁.static slot = d.static slot := by
      unfold destroyPreparedStatement
      cases here : d.static first with
      | null => exact ⟨d, by simp, rfl, here, fun _ _ => rfl⟩
      | dangling => exact absurd here (alive first List.mem_cons_self)
      | live stmt =>
        refine ⟨(d.set first .dangling).set first .null, ?_, rfl, Function.update_self .., fun slot other => ?_⟩
        · simp [sqlite3Finalize, stmtAt, here, Bind.bind, Except.bind, Pure.pure, Except.pure]
        · simp [Database.set, other]
    obtain ⟨d', went, db', cleared, kept⟩ := @ih d₁ fun slot member => by
      by_cases same : slot = first
      · rw [same, gone]
        exact Pointer.noConfusion
      · rw [others slot same]
        exact alive slot (List.mem_cons_of_mem _ member)
    rw [List.foldlM_cons]
    refine ⟨d', bind_ok.mpr ⟨d₁, destroyed, went⟩, db'.trans db, fun slot member => ?_, fun slot outside => ?_⟩
    · by_cases later : slot ∈ rest
      · exact cleared slot later
      · obtain rfl := (List.mem_cons.mp member).resolve_right later
        rw [kept slot later, gone]
    · rw [List.mem_cons, not_or] at outside
      rw [kept slot outside.2, others slot outside.1]

theorem mem_kept : slot ∈ kept ↔ slot ≠ .databaseList := by cases slot <;> decide

/-- Closing leaves nothing but the variable in `readDbName`. -/
theorem uninitialized (alive : ∀ slot, slot ≠ .databaseList → d.static slot ≠ .dangling)
    (last : ∀ stmt, d.static .databaseList ≠ .live stmt) :
    ∃ d', dbUninitialize d = .ok d' ∧ Shut (d.static .databaseList) d' := by
  obtain ⟨d₁, went, _, cleared, others⟩ := destroyed kept fun slot member => alive slot (mem_kept.mp member)
  have list : d₁.static .databaseList = d.static .databaseList := others _ (by decide)
  have cleared : ∀ slot, slot ≠ .databaseList → d₁.static slot = .null := fun slot own => cleared slot (mem_kept.mpr own)
  have closes : sqlite3Close d₁ = .ok d₁ := by
    refine if_neg ?_
    rintro ⟨open_, slot, _, connected⟩
    obtain ⟨connection, here⟩ := Option.isSome_iff_exists.mp open_
    rw [here] at connected
    by_cases own : slot = .databaseList
    · subst own
      rw [list] at connected
      cases pointer : d.static .databaseList with
      | null | dangling =>
        rw [pointer] at connected
        cases connected
      | live stmt => exact last stmt pointer
    · rw [cleared slot own] at connected
      cases connected
  refine ⟨{ d₁ with db := none, dbInMemory := false }, bind_ok.mpr ⟨d₁, went, ?_⟩, rfl, cleared, list⟩
  cases memory : d₁.dbInMemory with
  | true =>
    simp only [↓reduceIte, closes]
    rfl
  | false => rfl

theorem Open.closes (opened : Open none d) : ∃ d', dbUninitialize d = .ok d' ∧ Shut .dangling d' := by
  rw [← opened.dangling]
  refine uninitialized (fun slot own same => ?_) fun stmt same => ?_
  · obtain ⟨stmt, here, _⟩ := opened.cached slot own (by rw [same]; exact Pointer.noConfusion)
    rw [same] at here
    cases here
  · rw [opened.dangling] at same
    cases same

theorem Shut.closes (shut : Shut last d) (unset : ∀ stmt, last ≠ .live stmt) :
    ∃ d', dbUninitialize d = .ok d' ∧ Shut last d' := by
  rw [← shut.last]
  refine uninitialized (fun slot own same => ?_) fun stmt => ?_
  · rw [shut.cleared slot own] at same
    cases same
  · rw [shut.last]
    exact unset stmt

/-- Opening a database again uses the statement that is finalized. -/
theorem reopened (dangling : d.static .databaseList = .dangling) (db : Nat) :
    dbInitialize db d = .error .dangling ∧ dbInitializeInMemory d = .error .dangling := by
  have both : ∀ {e : Database} {connection : Connection}, e.static = d.static → e.db = some connection →
      initDb e = .error .dangling := by
    intro e connection static opened
    rw [← static] at dangling
    exact readDbName_dangling dangling opened
  exact ⟨both rfl rfl, both rfl rfl⟩

/-! ## Every order of calls -/

def Phase.Holds : Phase → Process → Prop
  | .fresh api, x => Shut .null x.database ∧ x.initializedApi = api ∧ x.initializedDb = false ∧ x.receipts = .unallocated
  | .running api, x => Open none x.database ∧ x.initializedApi = api ∧ x.initializedDb = true ∧
      x.receipts = if api then .allocated else .unallocated
  | .closed freed, x => Shut .dangling x.database ∧ x.initializedDb = false ∧
      x.receipts = if freed then .dangling else .unallocated

/-- A database that has just been opened. -/
theorem Phase.opens {api : Bool} {open_ : Database → Except Misuse Database} {connection : Connection}
    (holds : (Phase.fresh api).Holds x) (e : Database) (opens : open_ x.database = initDb e)
    (opened : e.db = some connection) (static : e.static = x.database.static) (rows : List Bool) :
    ∃ x', (do let d ← open_ x.database; initializeBoth rows { x with database := d, initializedDb := true }) = .ok x' ∧
      (Phase.running api).Holds x' := by
  obtain ⟨shut, there, _, receipts⟩ := holds
  obtain ⟨d₁, went, opened₁⟩ := shut.opens opened static
  rw [← opens] at went
  cases api with
  | false =>
    refine ⟨{ x with database := d₁, initializedDb := true }, bind_ok.mpr ⟨d₁, went, ?_⟩, opened₁, there, rfl, receipts⟩
    simp [initializeBoth, there]
  | true =>
    obtain ⟨d', loaded, opened'⟩ := opened₁.loads rows
    refine ⟨{ x with database := d', initializedDb := true, receipts := .allocated }, bind_ok.mpr ⟨d₁, went, ?_⟩,
      opened', there, rfl, rfl⟩
    simp only [initializeBoth, there, Bool.and_self, ↓reduceIte, loaded]
    rfl

theorem Phase.keeps_fresh {api : Bool} (holds : (Phase.fresh api).Holds x) (next : (Phase.fresh api).after c = some p') :
    ∃ x', call c x = .ok x' ∧ p'.Holds x' := by
  have before := holds
  obtain ⟨shut, there, closed, receipts⟩ := before
  cases c with
  | initializeApi rows =>
    cases next
    refine ⟨{ x with initializedApi := true }, ?_, shut, rfl, closed, receipts⟩
    simp [call, initializeBoth, closed]
  | initializeDb db rows =>
    cases next
    apply Phase.opens holds { x.database with db := some (.ofClient db) }
    iterate 3 rfl
  | initializeDbInmemory rows =>
    cases next
    let d := x.database
    apply Phase.opens holds { d with db := some (.inMemory d.opened), opened := d.opened + 1, dbInMemory := true }
    iterate 3 rfl
  | uninitializeBoth =>
    cases next
    obtain ⟨d', went, shut'⟩ := shut.closes fun _ => Pointer.noConfusion
    refine ⟨{ database := d' }, ?_, shut', rfl, rfl, rfl⟩
    simp only [call, receipts, receiptsUninitialize, went]
    rfl
  | periodic =>
    cases next
    refine ⟨x, ?_, holds⟩
    simp [call, closed]
  | message | send | receipt => cases next

theorem Phase.keeps_running {api : Bool} (holds : (Phase.running api).Holds x)
    (next : (Phase.running api).after c = some p') : ∃ x', call c x = .ok x' ∧ p'.Holds x' := by
  have before := holds
  obtain ⟨opened, there, isOpen, receipts⟩ := before
  have ready : api = true → x.Ready := by
    rintro rfl
    exact ⟨there, receipts⟩
  cases c with
  | initializeApi rows =>
    cases next
    obtain ⟨d', loaded, opened'⟩ := opened.loads rows
    refine ⟨{ x with initializedApi := true, receipts := .allocated, database := d' }, ?_, opened', rfl, isOpen, rfl⟩
    simp only [call, initializeBoth, isOpen, Bool.and_self, ↓reduceIte, loaded]
    rfl
  | initializeDb | initializeDbInmemory => cases next
  | uninitializeBoth =>
    cases next
    obtain ⟨d', went, shut⟩ := opened.closes
    refine ⟨{ receipts := if api then .dangling else .unallocated, database := d' }, ?_, shut, rfl, rfl⟩
    simp only [call, receipts, went]
    cases api <;> rfl
  | message fragment =>
    have answers : ∀ {d}, Open (some .selectFragmentedInboundDone) d → ∃ d', clientSends x fragment.answers d = .ok d' ∧
        Open (some .selectFragmentedInboundDone) d' := by
      intro d stands
      cases api with
      | true => exact stands.clientSends (ready rfl) fragment.answers
      | false =>
        have silent : fragment.answers = 0 := by
          by_contra some_
          simp [Phase.after, some_] at next
        rw [silent]
        exact ⟨d, rfl, stands⟩
    obtain ⟨d', went, opened'⟩ := opened.message fragment answers
    have same : p' = .running api := by
      simp only [Phase.after, Option.ite_none_right_eq_some, Option.some.injEq] at next
      exact next.2.symm
    subst same
    exact ⟨{ x with database := d' }, bind_ok.mpr ⟨d', went, rfl⟩, opened', there, isOpen, receipts⟩
  | send =>
    cases api with
    | false => cases next
    | true =>
      cases next
      obtain ⟨d', sent, opened'⟩ := opened.sends_long (ready rfl)
      exact ⟨{ x with database := d' }, bind_ok.mpr ⟨d', sent, rfl⟩, opened', there, isOpen, receipts⟩
  | receipt completes =>
    cases api with
    | false => cases next
    | true =>
      cases next
      obtain ⟨d', found, opened'⟩ := opened.receipt (ready rfl) completes
      exact ⟨{ x with database := d' }, bind_ok.mpr ⟨d', found, rfl⟩, opened', there, isOpen, receipts⟩
  | periodic =>
    refine ⟨x, ?_, ?_⟩
    · cases api with
      | false => simp [call, there]
      | true =>
        simp [call, there, isOpen, receipts]
        rfl
    · cases api <;> cases next <;> exact holds

theorem Phase.keeps_closed {freed : Bool} (holds : (Phase.closed freed).Holds x)
    (next : (Phase.closed freed).after c = some p') : ∃ x', call c x = .ok x' ∧ p'.Holds x' := by
  have before := holds
  obtain ⟨shut, closed, receipts⟩ := before
  cases c with
  | initializeApi rows =>
    cases next
    refine ⟨{ x with initializedApi := true }, ?_, shut, closed, receipts⟩
    simp [call, initializeBoth, closed]
  | uninitializeBoth =>
    cases freed with
    | true => cases next
    | false =>
      cases next
      obtain ⟨d', went, shut'⟩ := shut.closes fun _ => Pointer.noConfusion
      refine ⟨{ database := d' }, ?_, shut', rfl, rfl⟩
      simp only [call, receipts, went]
      rfl
  | periodic =>
    refine ⟨x, ?_, ?_⟩
    · simp [call, closed]
    · cases freed <;> cases next <;> exact holds
  | initializeDb | initializeDbInmemory | message | send | receipt => cases freed <;> cases next

/-- Where a call may come, it returns. -/
theorem Phase.keeps (holds : p.Holds x) (next : p.after c = some p') : ∃ x', call c x = .ok x' ∧ p'.Holds x' := by
  cases p with
  | fresh api => exact Phase.keeps_fresh holds next
  | running api => exact Phase.keeps_running holds next
  | closed freed => exact Phase.keeps_closed holds next

/-- Without a database there is nothing to insert into. -/
theorem Shut.refuses (shut : Shut last x.database) :
    (∀ fragment, ∃ fault, call (.message fragment) x = .error fault) ∧ (∃ fault, call .send x = .error fault) ∧
      ∀ completes, ∃ fault, call (.receipt completes) x = .error fault := by
  have inserted : dbInsertOutboundMessage x.database = .error .reported :=
    bind_error.mpr (.inl (shut.execute (by decide)))
  have confirmed : dbOutboundPartConfirmed x.database = .error .reported :=
    bind_error.mpr (.inl (shut.execute (by decide)))
  refine ⟨fun fragment => ?_, ?_, fun completes => ?_⟩
  · exact ⟨_, bind_error.mpr (.inl (bind_error.mpr (.inl (shut.execute (by decide)))))⟩
  · have refused : ∃ fault, friendSendMessageLong x x.database = .error fault := by
      unfold friendSendMessageLong
      cases x.initializedApi with
      | false => exact ⟨_, rfl⟩
      | true =>
        rw [inserted]
        cases x.receipts with
        | unallocated | allocated | dangling => exact ⟨_, rfl⟩
    obtain ⟨fault, refused⟩ := refused
    exact ⟨fault, bind_error.mpr (.inl refused)⟩
  · have refused : ∃ fault, tryProcessReceipt completes x = .error fault := by
      unfold tryProcessReceipt
      rw [confirmed]
      cases x.receipts with
      | unallocated | allocated | dangling => exact ⟨_, rfl⟩
    obtain ⟨fault, refused⟩ := refused
    exact ⟨fault, bind_error.mpr (.inl refused)⟩

/-- After a database was opened none can be opened. -/
theorem refuses_opening (dangling : x.database.static .databaseList = .dangling) (rows : List Bool) :
    (∀ db, ∃ fault, call (.initializeDb db rows) x = .error fault) ∧
      ∃ fault, call (.initializeDbInmemory rows) x = .error fault := by
  refine ⟨fun db => ?_, ?_⟩
  · exact ⟨_, bind_error.mpr (.inl (reopened dangling db).1)⟩
  · exact ⟨_, bind_error.mpr (.inl (reopened dangling 0).2)⟩

/-- A client that answers needs the interface. -/
theorem Open.unanswered (opened : Open none x.database) {fragment : Fragment} (absent : x.initializedApi = false)
    (answers : fragment.answers ≠ 0) : ∃ fault, call (.message fragment) x = .error fault := by
  obtain ⟨silent, _⟩ | ⟨n, d', rfl, _, goes⟩ := opened.inserted fragment (Statements.clientSends x)
  · exact absurd silent answers
  · obtain ⟨m, rfl⟩ : ∃ m, n = m + 1 := Nat.exists_eq_succ_of_ne_zero answers
    have refused : Statements.clientSends x (m + 1) d' = .error .unallocated := by
      simp [Statements.clientSends, List.range_succ_eq_map, friendSendMessageLong, absent, Bind.bind, Except.bind]
    exact ⟨.unallocated, bind_error.mpr (.inl (goes.trans (bind_error.mpr (.inl refused))))⟩

/-- Elsewhere it does not. -/
theorem Phase.refuses (holds : p.Holds x) (next : p.after c = none) : ∃ fault, call c x = .error fault := by
  cases p with
  | fresh api =>
    obtain ⟨shut, _⟩ := holds
    cases c with
    | message fragment => exact shut.refuses.1 fragment
    | send => exact shut.refuses.2.1
    | receipt completes => exact shut.refuses.2.2 completes
    | initializeApi | initializeDb | initializeDbInmemory | uninitializeBoth | periodic => cases next
  | running api =>
    obtain ⟨opened, there, isOpen, receipts⟩ := holds
    cases c with
    | initializeDb db rows => exact (refuses_opening opened.dangling rows).1 db
    | initializeDbInmemory rows => exact (refuses_opening opened.dangling rows).2
    | message fragment =>
      simp only [Phase.after, ite_eq_right_iff, reduceCtorEq, imp_false, Bool.or_eq_true, decide_eq_true_eq, not_or,
        Bool.not_eq_true] at next
      exact opened.unanswered (there.trans next.1) next.2
    | send =>
      cases api with
      | true => cases next
      | false =>
        refine ⟨.unallocated, bind_error.mpr (.inl ?_)⟩
        simp [friendSendMessageLong, there]
    | receipt completes =>
      cases api with
      | true => cases next
      | false =>
        refine ⟨.unallocated, bind_error.mpr (.inl (bind_error.mpr (.inl ?_)))⟩
        rw [receipts]
        rfl
    | initializeApi | uninitializeBoth => cases next
    | periodic => cases api <;> cases next
  | closed freed =>
    obtain ⟨shut, closed, receipts⟩ := holds
    cases c with
    | initializeDb db rows => exact (refuses_opening shut.last rows).1 db
    | initializeDbInmemory rows => exact (refuses_opening shut.last rows).2
    | message fragment => exact shut.refuses.1 fragment
    | send => exact shut.refuses.2.1
    | receipt completes => exact shut.refuses.2.2 completes
    | uninitializeBoth =>
      cases freed with
      | false => cases next
      | true =>
        refine ⟨.dangling, bind_error.mpr (.inl ?_)⟩
        rw [receipts]
        rfl
    | initializeApi => cases next
    | periodic => cases freed <;> cases next

theorem calls_hold : ∀ {p : Phase} {x : Process}, p.Holds x →
    (∀ p', cs.foldlM Phase.after p = some p' → ∃ x', calls cs x = .ok x' ∧ p'.Holds x') ∧
      (cs.foldlM Phase.after p = none → ∃ fault, calls cs x = .error fault) := by
  induction cs with
  | nil =>
    intro p x holds
    refine ⟨fun p' same => ⟨x, rfl, ?_⟩, fun none_ => ?_⟩
    · cases same
      exact holds
    · cases none_
  | cons c rest ih =>
    intro p x holds
    simp only [calls, List.foldlM_cons]
    cases next : p.after c with
    | none =>
      obtain ⟨fault, refused⟩ := Phase.refuses holds next
      refine ⟨fun p' goes => ?_, fun _ => ⟨fault, bind_error.mpr (.inl refused)⟩⟩
      cases goes
    | some p₁ =>
      obtain ⟨x₁, called, holds₁⟩ := Phase.keeps holds next
      obtain ⟨goes, stops⟩ := ih holds₁
      refine ⟨fun p' went => ?_, fun stopped => ?_⟩
      · obtain ⟨x', later, holds'⟩ := goes p' went
        exact ⟨x', bind_ok.mpr ⟨x₁, called, later⟩, holds'⟩
      · obtain ⟨fault, later⟩ := stops stopped
        exact ⟨fault, bind_error.mpr (.inr ⟨x₁, called, later⟩)⟩

theorem Shut.no_statement (shut : Shut last d) (unset : ∀ stmt, last ≠ .live stmt) : d.static slot ≠ .live stmt := by
  intro here
  by_cases own : slot = .databaseList
  · subst own
    exact unset stmt (shut.last.symm.trans here)
  · rw [shut.cleared slot own] at here
    cases here

/-- Whatever calls come to the library in whatever order, with any rows to load
and with any number of messages sent from inside a callback: all of them return
if and only if the process opens a database at most once, uses it only while the
interface is there too, and closes it at most once. Then no statement is left
for another connection or without its reset. -/
theorem statements_sound_iff (cs : List Call) :
    ((∃ x, calls cs {} = .ok x) ↔ ∃ p, cs.foldlM Phase.after (.fresh false) = some p) ∧
      ∀ x, calls cs {} = .ok x → ∀ slot stmt, x.database.static slot = .live stmt →
        x.database.db = some stmt.connection ∧ stmt.stepped = false := by
  have holds : (Phase.fresh false).Holds {} := ⟨⟨rfl, fun _ _ => rfl, rfl⟩, rfl, rfl, rfl⟩
  obtain ⟨goes, stops⟩ := @calls_hold cs _ _ holds
  cases ends : cs.foldlM Phase.after (.fresh false) with
  | none =>
    obtain ⟨fault, stopped⟩ := stops ends
    rw [stopped]
    simp
  | some p =>
    obtain ⟨x, went, after⟩ := goes p ends
    refine ⟨⟨fun _ => ⟨p, rfl⟩, fun _ => ⟨x, went⟩⟩, fun x' went' slot stmt here => ?_⟩
    cases went.symm.trans went'
    cases p with
    | running api =>
      obtain ⟨opened, _⟩ := after
      have own : slot ≠ .databaseList := by
        rintro rfl
        rw [opened.dangling] at here
        cases here
      obtain ⟨stmt', same, connection, stepped⟩ := opened.cached slot own (by rw [here]; exact Pointer.noConfusion)
      cases here.symm.trans same
      exact ⟨connection, by simpa using stepped⟩
    | fresh api => exact absurd here (after.1.no_statement fun _ => Pointer.noConfusion)
    | closed freed => exact absurd here (after.1.no_statement fun _ => Pointer.noConfusion)

/-- A client that closes the library and starts it again. -/
example : calls [.initializeApi [], .initializeDb 0 [], .uninitializeBoth, .initializeApi [], .initializeDb 0 []] {}
    matches .error .dangling := by decide

end Defragmenter.Statements
