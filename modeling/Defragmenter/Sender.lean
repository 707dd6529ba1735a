import Defragmenter.Database
import Defragmenter.Receipts
import Defragmenter.Split

/-! The sending half of `tox-defragmenter.c`. A `State` is the process's static
data and its store; a `World` answers what the process asks of its outside: the
base library, the clock, the connection status. Messages live at addresses that
are never used again, and following one that was freed is a fault. -/
namespace Defragmenter.Sender
open Decimal Marker Database Split Receipts

/-- `struct params`. -/
structure Params where
  maxMessageLength : Nat
  fragmentsAtATime : Nat := 512
  receiptExpirationTimeMs : Nat := 20000
  receiptRangeLo : Nat := 0x70000000
  receiptRangeHi : Nat := 0x7fffffff

/-- A world gives its answers by the number of the question, counted from zero. -/
structure World where
  params : Params
  limit : BlobLimit
  /-- What the base library's `tox_friend_send_message` returns: an id, or zero
  where it rejects the message. -/
  answer : Nat → Nat
  /-- The clock, in milliseconds. -/
  clock : Nat → Nat
  /-- Whether the friend that is asked about is connected. -/
  online : Nat → Bool
  /-- The rounds for which an expiry pass is observed beyond the records it
  found when it began. -/
  rounds : Nat

/-- A call of the base library's `tox_friend_send_message`. `part` is not an
argument: it records which part of which message a fragment is. -/
structure BaseCall where
  friendNumber : Nat
  type : Int
  data : Option (List UInt8)
  length : Nat
  part : Option (Nat × Nat)

/-- What happens towards the client, and which part a receipt confirmed. -/
inductive Event where
  /-- `friend_send_message_long` returned this number for the message. -/
  | returned (msg friendNumber id : Nat) (message : List UInt8) (receipt : Nat)
  /-- The client's receipt callback, from `msgIsComplete`. -/
  | completed (msg friendNumber receipt : Nat)
  /-- The client's receipt callback, for a receipt that was passed on. -/
  | passed (friendNumber receipt : Nat)
  | confirmed (msg partNo receipt : Nat)
  deriving DecidableEq, Repr

structure State where
  /-- The calls of the base library so far, in order. -/
  base : List BaseCall := []
  ticks : Nat := 0
  polls : Nat := 0
  heap : Nat → Option MsgOutbound := fun _ => none
  fresh : Nat := 0
  /-- The circular list, from `msgsOutbound` on along `next`. -/
  msgsOutbound : List Nat := []
  receipts : ReceiptTable := {}
  lastReceipt : Nat := 0
  lastMsgId : Nat := 0
  markerMaxSizeEver : Nat := 0
  db : Db := {}
  /-- Last first. -/
  events : List Event := []

variable (w : World)

def getCurrTimeMs (s : State) : Nat × State := (w.clock s.ticks, { s with ticks := s.ticks + 1 })

def isFriendOnline (s : State) : Bool × State := (w.online s.polls, { s with polls := s.polls + 1 })

def toxFriendSendMessage (s : State) (call : BaseCall) : Nat × State :=
  (w.answer s.base.length, { s with base := s.base ++ [call] })

def State.msgAt (s : State) (msg : Nat) : Except Fault MsgOutbound :=
  match s.heap msg with
  | none => .error .useAfterFree
  | some m => .ok m

def State.setMsg (s : State) (msg : Nat) (m : MsgOutbound) : State :=
  { s with heap := Function.update s.heap msg (some m) }

/-- A message put at an address of its own. -/
def State.alloc (s : State) (m : MsgOutbound) : State :=
  { s with fresh := s.fresh + 1, heap := Function.update s.heap s.fresh (some m) }

/-- `msgId` counts up until it is past `lastMsgId`. -/
def generateMsgId (s : State) : Nat × State :=
  let (now, s) := getCurrTimeMs w s
  let msgId := max now (s.lastMsgId + 1)
  (msgId, { s with lastMsgId := msgId })

/-- `lastReceipt+1 <= receiptRangeHi ? lastReceipt+1 : receiptRangeLo`. -/
def nextReceiptNo (params : Params) (lastReceipt : Nat) : Nat :=
  if (lastReceipt + 1) % 2 ^ 32 ≤ params.receiptRangeHi then (lastReceipt + 1) % 2 ^ 32
  else params.receiptRangeLo

/-- The loop of `generateReceiptNo` over the numbers of the pending messages.
One more candidate than there are pending messages is enough to find a free
number, or to see that the loop does not end. -/
def avoidPending (params : Params) (pending : List Nat) : Nat → Nat → Except Fault Nat
  | 0, _ => .error .diverges
  | fuel + 1, lastReceipt =>
    if lastReceipt ∈ pending then avoidPending params pending fuel (nextReceiptNo params lastReceipt)
    else .ok lastReceipt

/-- The `receipt` fields along the list. -/
def State.pending (s : State) : List Nat :=
  s.msgsOutbound.filterMap fun msg => (s.heap msg).map (·.receipt)

def generateReceiptNo (s : State) : Except Fault (Nat × State) := do
  let r ← avoidPending w.params s.pending (s.msgsOutbound.length + 1)
    (nextReceiptNo w.params s.lastReceipt)
  pure (r, { s with lastReceipt := r })

def msgsOutboundLink (msgsOutbound : List Nat) (msg : Nat) : List Nat :=
  match msgsOutbound with
  | [] => [msg]
  | first :: rest => first :: msg :: rest

/-- Unlinking the first message makes the last one the first. With two messages
`next` and `prev` of the first are both the other one, and `msgsOutbound`
becomes `NULL`. -/
def msgsOutboundUnlink (msgsOutbound : List Nat) (msg : Nat) : List Nat :=
  match msgsOutbound with
  | [] => []
  | first :: rest =>
    if msg = first then
      match rest.getLast? with
      | none => []
      | some last => if rest.length = 1 then [] else last :: rest.dropLast
    else first :: rest.erase msg

def msgOutboundDelete (s : State) (msg : Nat) : State :=
  { s with heap := Function.update s.heap msg none }

/-! ## Sending fragments -/

/-- The message once its fragment `i` has gone out under `receipt`. -/
def partSent (m : MsgOutbound) (i receipt : Nat) : MsgOutbound :=
  { m with
    fragments := m.fragments.modify i fun f =>
      { f with receipt := receipt, timesSent := f.timesSent + 1 }
    numTransit := (m.numTransit + 1) % 2 ^ 32 }

/-- The call of the base library for fragment `i`. -/
def partCall (msg : Nat) (m : MsgOutbound) (i : Nat) : BaseCall :=
  let f := m.fragments.getD i {}
  { friendNumber := m.friendNumber, type := m.type, data := f.data, length := f.length,
    part := some (msg, i + 1) }

def msgSendPart (s : State) (msg i : Nat) : Except Fault (State × Bool) := do
  let m ← s.msgAt msg
  let (receipt, s) := toxFriendSendMessage w s (partCall msg m i)
  if receipt = 0 then pure (s, false)
  else
    let (now, s) := getCurrTimeMs w s
    let s := { s with receipts := s.receipts.addReceipt ⟨receipt, msg, i + 1, now⟩ }
    pure (s.setMsg msg (partSent m i receipt), true)

/-- The loop over the parts from `i` on, `count` of them left, that moves
`lastSent` along. -/
def sendFrom (msg : Nat) : Nat → Nat → State → Except Fault State
  | 0, _, s => .ok s
  | count + 1, i, s => do
    let m ← s.msgAt msg
    if m.numTransit < w.params.fragmentsAtATime then
      let (s, sent) ← msgSendPart w s msg i
      if sent then
        let m ← s.msgAt msg
        sendFrom msg count (i + 1) (s.setMsg msg { m with lastSent := i })
      else sendFrom msg count (i + 1) s
    else pure s

/-- The loop over the parts from `i` on, `count` of them left, that sends those
that failed before. -/
def sendFailed (msg : Nat) : Nat → Nat → State → Except Fault State
  | 0, _, s => .ok s
  | count + 1, i, s => do
    let m ← s.msgAt msg
    if m.numTransit < w.params.fragmentsAtATime ∧
        (m.numTransit + m.numConfirmed) % 2 ^ 32 < m.numParts then
      let f := m.fragments.getD i {}
      if f.receipt = 0 ∧ f.confirmed = false then
        let (s, _) ← msgSendPart w s msg i
        sendFailed msg count (i + 1) s
      else sendFailed msg count (i + 1) s
    else pure s

def msgSendNextParts (s : State) (msg : Nat) : Except Fault State := do
  let m ← s.msgAt msg
  let s ← sendFrom w msg (m.numParts - (m.lastSent + 1)) (m.lastSent + 1) s
  sendFailed w msg m.numParts 0 s

/-- The end of a long send of which a part went out: the remaining fields, the
list, the store, and the number for the client. -/
def acceptMessage (s : State) (msg : Nat) (m : MsgOutbound) (friendNumber : Nat) (type : Int)
    (message : List UInt8) (receipt : Nat) : Except Fault State := do
  let db ← dbInsertOutboundMessage w.limit s.db friendNumber type m.id m.id m.numParts message receipt
  pure { s with
    heap := Function.update s.heap msg (some { m with type, receipt })
    msgsOutbound := msgsOutboundLink s.msgsOutbound msg
    db
    events := .returned msg friendNumber m.id message receipt :: s.events }

def friendSendMessageLong (s : State) (friendNumber : Nat) (type : Int) (message : List UInt8) :
    Except Fault (State × Nat) := do
  let (id, s) := generateMsgId w s
  let m ← splitMessage s.markerMaxSizeEver message w.params.maxMessageLength id
  let msg := s.fresh
  let s ← sendFrom w msg m.numParts 0 (s.alloc { m with friendNumber })
  let m ← s.msgAt msg
  if 0 < m.numTransit then
    let (receipt, s) ← generateReceiptNo w s
    let s ← acceptMessage w s msg m friendNumber type message receipt
    pure (s, receipt)
  else
    -- failure to send all attempted parts means inability to send the whole message
    pure (msgOutboundDelete s msg, 0)

def friendSendMessage (s : State) (friendNumber : Nat) (type : Int) (message : List UInt8)
    (beyond : Memory) : Except Fault (State × Nat) :=
  if markerExists (memoryOf message beyond) message.length then .ok (s, 0)
  else if message.length ≤ w.params.maxMessageLength then
    let (receipt, s) := toxFriendSendMessage w s
      { friendNumber, type, data := some message, length := message.length, part := none }
    .ok (s, receipt)
  else friendSendMessageLong w s friendNumber type message

/-! ## Receipts -/

def msgIsComplete (s : State) (msg : Nat) : Except Fault State := do
  let m ← s.msgAt msg
  let s := { s with events := .completed msg m.friendNumber m.receipt :: s.events }
  let s := { s with db := dbClearOutboundPending s.db m.friendNumber m.id }
  let s := { s with msgsOutbound := msgsOutboundUnlink s.msgsOutbound msg }
  pure (msgOutboundDelete s msg)

/-- The message once the receipt for its part `partNo` has come in. -/
def partConfirmed (m : MsgOutbound) (partNo : Nat) : MsgOutbound :=
  { m with
    fragments := m.fragments.modify (partNo - 1) fun f =>
      { f with receipt := 0, confirmed := true, data := none }
    numConfirmed := (m.numConfirmed + 1) % 2 ^ 32
    numTransit := toUnsigned (m.numTransit - 1) }

/-- More of a message, unless its friend is offline. -/
def serve (s : State) (msg : Nat) : Except Fault State :=
  let (online, s) := isFriendOnline w s
  if online then msgSendNextParts w s msg else .ok s

/-- The middle of `tryProcessReceipt`, once the part is confirmed. -/
def proceed (s : State) (msg : Nat) (m : MsgOutbound) : Except Fault State :=
  if m.numConfirmed < m.numParts then serve w s msg else msgIsComplete s msg

def tryProcessReceipt (s : State) (receipt : Nat) : Except Fault (State × Bool) :=
  -- in range: must be a duplicate receipt
  let notFound := .ok (s, decide (w.params.receiptRangeLo ≤ receipt ∧ receipt ≤ w.params.receiptRangeHi))
  match s.receipts.findReceipt receipt with
  | none => notFound
  | some recIdx =>
    let r := s.receipts.receipts recIdx
    if r.receipt ≠ receipt then notFound
    else do
      let m ← s.msgAt r.msg
      let m := partConfirmed m r.partNo
      let (now, s) := getCurrTimeMs w (s.setMsg r.msg m)
      let db ← dbOutboundPartConfirmed s.db m.friendNumber m.id r.partNo now
      let s ← proceed w { s with db, events := .confirmed r.msg r.partNo receipt :: s.events } r.msg m
      pure ({ s with receipts := (s.receipts.clear recIdx).trim recIdx }, true)

def friendReadReceiptCb (s : State) (friendNumber messageId : Nat) : Except Fault State := do
  let (s, processed) ← tryProcessReceipt w s messageId
  if processed then pure s
  else pure { s with events := .passed friendNumber messageId :: s.events }

/-! ## The periodic pass -/

def expired (now : Nat) (r : ReceiptRecord) : Bool :=
  r.receipt ≠ 0 && (r.timestamp + w.params.receiptExpirationTimeMs) % 2 ^ 64 < now

/-- The message once the record of one of its parts has expired. -/
def partLost (m : MsgOutbound) : MsgOutbound :=
  { m with numTransit := toUnsigned (m.numTransit - 1), numLoss := m.numLoss + 1 }

/-- The loop of `resendExpiredReceipts` from slot `i` on. It reads `receiptsHi`
anew in every round, and what it sends is appended there. -/
def resendFrom (now : Nat) : Nat → Nat → State → Except Fault State
  | 0, _, _ => .error .diverges
  | fuel + 1, i, s =>
    if i < s.receipts.hi then
      let r := s.receipts.receipts i
      if expired w now r then do
        let s := { s with receipts := { s.receipts.clear i with num := s.receipts.num - 1 } }
        let m ← s.msgAt r.msg
        let (s, _) ← msgSendPart w (s.setMsg r.msg (partLost m)) r.msg (r.partNo - 1)
        resendFrom now fuel (i + 1) s
      else resendFrom now fuel (i + 1) s
    else .ok s

def resendExpiredReceipts (s : State) : Except Fault State :=
  if s.receipts.num = 0 then .ok s
  else
    let (now, s) := getCurrTimeMs w s
    resendFrom w now (s.receipts.hi - s.receipts.lo + w.rounds + 1) s.receipts.lo s

def sendMore (s : State) : Except Fault State := s.msgsOutbound.foldlM (serve w) s

def doPeriodic (s : State) : Except Fault State := do
  let s ← resendExpiredReceipts w s
  sendMore w s

/-! ## Starting -/

/-- The row is no use and its message is dropped. -/
def discardPending (s : State) (p : PendingSent) : State :=
  { s with db := dbClearOutboundPending s.db p.friendNumber p.id }

/-- A recomputed fragment with its stored confirmation. -/
def restoreConfirmed (f : Fragment) (confirmed : UInt8) : Fragment :=
  if confirmed = 0 then f else { f with confirmed := true, data := none }

/-- Neither `type` nor `receipt` is read from the row here. -/
def loadPendingSentMessage (s : State) (p : PendingSent) : Except Fault State := do
  let m ← splitMessage s.markerMaxSizeEver p.message w.params.maxMessageLength p.id
  if m.numParts ≠ p.numParts ∨ m.numParts ≠ p.confirmed.length then
    pure (discardPending s p)
  else
    let numConfirmed := (p.confirmed.filter (· ≠ 0)).length
    let m := { m with
      fragments := List.zipWith restoreConfirmed m.fragments p.confirmed
      numConfirmed }
    if p.numConfirmed ≠ numConfirmed ∨ p.numParts < p.numConfirmed then
      pure (discardPending s p)
    else if numConfirmed < p.numParts then
      pure { s.alloc { m with friendNumber := p.friendNumber, fromDb := true } with
        msgsOutbound := msgsOutboundLink s.msgsOutbound s.fresh }
    else pure (discardPending s p)

def loadPendingSentMessages (s : State) : Except Fault State := do
  let s := { s with db := dbLock s.db }
  let s ← (stmtSelectFragmentedOutboundPending s.db).foldlM (loadPendingSentMessage w) s
  pure { s with db := dbUnlock s.db }

/-- `initialize`, whose name Lean keeps for itself. -/
def initializeBoth (s : State) : Except Fault State := do
  let s := { s with receipts := receiptsInitialize, lastReceipt := w.params.receiptRangeLo }
  let s ← loadPendingSentMessages w s
  pure { s with markerMaxSizeEver := markerMaxSizeBytes (2 ^ 31 - 1) (2 ^ 31 - 1) }

/-! ## The process -/

/-- The calls a process's sending half gets. `beyond` is the memory behind the
client's message. -/
inductive Op where
  | send (friendNumber : Nat) (type : Int) (message : List UInt8) (beyond : Memory)
  | receipt (friendNumber messageId : Nat)
  | periodic

def step : Op → State → Except Fault State
  | .send friendNumber type message beyond, s => do
    let (s, _) ← friendSendMessage w s friendNumber type message beyond
    pure s
  | .receipt friendNumber messageId, s => friendReadReceiptCb w s friendNumber messageId
  | .periodic, s => doPeriodic w s

/-- A process that was just initialized over an empty store. -/
def Started (s : State) : Prop := initializeBoth w {} = .ok s

/-- A world whose base library gives these ids and rejects every later call,
whose clock shows these times and then stands still, and whose friends are connected. -/
def scripted (params : Params) (answers times : List Nat) : World where
  params := params
  limit := defaultLimit
  answer n := answers.getD n 0
  clock n := times.getD n (times.getLastD 1234567890123)
  online _ := true
  rounds := 64

end Defragmenter.Sender
