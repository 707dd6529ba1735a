import Defragmenter.InboundStore
import Defragmenter.Receiver
import Defragmenter.Sender

/-! The whole process, with a client that sends messages while it is called
back. The callback for a complete message is made inside
`dbInsertInboundFragment`, that for a receipt inside `msgIsComplete`; what the
client sends there goes through the state in the middle of these functions. -/
namespace Defragmenter.Reentry
open Decimal Marker Database InboundStore Split Receiver Sender Receipts

/-- A call of `friend_send_message` by the client. -/
structure ClientSend where
  friendNumber : Nat
  type : Int
  message : List UInt8
  beyond : Memory

structure Process where
  state : State
  /-- How often the client was called back. -/
  callbacks : Nat := 0

-- `client n` is what the client sends during the callback that comes after `n` others.
variable (w : World) (client : Nat → List ClientSend)

def clientSend (s : State) (c : ClientSend) : Except Fault State := do
  let (s, _) ← friendSendMessage w s c.friendNumber c.type c.message c.beyond
  pure s

/-- A callback of the client. -/
def callBack (p : Process) : Except Fault Process := do
  let state ← (client p.callbacks).foldlM (clientSend w) p.state
  pure { state, callbacks := p.callbacks + 1 }

/-! ## Receipts -/

def msgIsComplete (p : Process) (msg : Nat) : Except Fault Process := do
  let m ← p.state.msgAt msg
  let p ← callBack w client { p with
    state := { p.state with events := .completed msg m.friendNumber m.receipt :: p.state.events } }
  let m ← p.state.msgAt msg
  let s := { p.state with db := dbClearOutboundPending p.state.db m.friendNumber m.id }
  let s := { s with msgsOutbound := msgsOutboundUnlink s.msgsOutbound msg }
  pure { p with state := msgOutboundDelete s msg }

def proceed (p : Process) (msg : Nat) (m : MsgOutbound) : Except Fault Process :=
  if m.numConfirmed < m.numParts then do
    let state ← serve w p.state msg
    pure { p with state }
  else msgIsComplete w client p msg

def tryProcessReceipt (p : Process) (receipt : Nat) : Except Fault (Process × Bool) :=
  let notFound := .ok (p, decide (w.params.receiptRangeLo ≤ receipt ∧ receipt ≤ w.params.receiptRangeHi))
  match p.state.receipts.findReceipt receipt with
  | none => notFound
  | some recIdx =>
    let r := p.state.receipts.receipts recIdx
    if r.receipt ≠ receipt then notFound
    else do
      let m ← p.state.msgAt r.msg
      let m := partConfirmed m r.partNo
      let (now, s) := getCurrTimeMs w (p.state.setMsg r.msg m)
      let db ← dbOutboundPartConfirmed s.db m.friendNumber m.id r.partNo now
      let s := { s with db, events := .confirmed r.msg r.partNo receipt :: s.events }
      let p ← proceed w client { p with state := s } r.msg m
      let s := p.state
      pure ({ p with state := { s with receipts := (s.receipts.clear recIdx).trim recIdx } }, true)

def friendReadReceiptCb (p : Process) (friendNumber messageId : Nat) : Except Fault Process := do
  let (p, processed) ← tryProcessReceipt w client p messageId
  if processed then pure p
  else
    let events := .passed friendNumber messageId :: p.state.events
    callBack w client { p with state := { p.state with events } }

/-! ## Incoming messages -/

/-- The callback comes between the count and the deletion of the data row. -/
def dbInsertInboundFragment (p : Process) (f : InboundFragment) : Except Fault Process := do
  let (db, ready) ← insertUntil w.limit .readyCallback p.state.db f
  let p := { p with state := { p.state with db } }
  match ready with
  | none => pure p
  | some _ =>
    let p ← callBack w client p
    let db := dbUnlock (deleteDataRecord p.state.db false f.friendNumber f.id)
    pure { p with state := { p.state with db } }

def processInFragment (p : Process) (m : Incoming) : Except Fault Process :=
  match markerParse m.memory m.message.length with
  | none => .error .abort -- not reached: `isFragment` ran the same parse
  | some fields =>
    let (now, state) := getCurrTimeMs w p.state
    dbInsertInboundFragment w client { p with state } (inFragment m now fields)

def friendMessageCb (p : Process) (m : Incoming) : Except Fault Process :=
  if isFragment m then processInFragment w client p m else callBack w client p

/-! ## The process -/

inductive Call where
  | message (m : Incoming)
  | send (friendNumber : Nat) (type : Int) (message : List UInt8) (beyond : Memory)
  | receipt (friendNumber messageId : Nat)
  | periodic

def step : Call → Process → Except Fault Process
  | .message m, p => friendMessageCb w client p m
  | .send friendNumber type message beyond, p => do
    let state ← clientSend w p.state ⟨friendNumber, type, message, beyond⟩
    pure { p with state }
  | .receipt friendNumber messageId, p => friendReadReceiptCb w client p friendNumber messageId
  | .periodic, p => do
    let state ← doPeriodic w p.state
    pure { p with state }

/-! ## A client that sends nothing -/

/-- The call as one of the sending half. -/
def Call.op : Call → Option Op
  | .message _ => none
  | .send friendNumber type bytes beyond => some (.send friendNumber type bytes beyond)
  | .receipt friendNumber messageId => some (.receipt friendNumber messageId)
  | .periodic => some .periodic

section Silent
variable {w : World} {p : Process}

def silent : Nat → List ClientSend := fun _ => []

theorem map_bind {α β γ ε : Type} {x : Except ε α} {f : α → Except ε β} {g : β → γ} :
    (x >>= f).map g = x >>= fun a => (f a).map g := by
  cases x <;> rfl

/-- Computations that agree in what is looked at, followed by ones that agree. -/
theorem bind_through {α β γ ε : Type} {x : Except ε α} {y : Except ε β} {f : α → β}
    {g : α → Except ε γ} {h : β → Except ε γ} (same : x.map f = y) (rest : ∀ a, g a = h (f a)) :
    x >>= g = y >>= h := by
  subst same
  cases x with
  | error fault => rfl
  | ok a => exact rest a

theorem callBack_silent : callBack w silent p = .ok { p with callbacks := p.callbacks + 1 } := rfl

theorem msgIsComplete_silent {msg : Nat} :
    (msgIsComplete w silent p msg).map (·.state) = Sender.msgIsComplete p.state msg := by
  simp only [msgIsComplete, Sender.msgIsComplete]
  cases found : p.state.heap msg with
  | none => simp [State.msgAt, found, bind, Except.bind, Except.map]
  | some m => simp [State.msgAt, found, bind, Except.bind, Except.map, callBack_silent, pure, Except.pure]

theorem proceed_silent {msg : Nat} {m : MsgOutbound} :
    (proceed w silent p msg m).map (·.state) = Sender.proceed w p.state msg m := by
  unfold proceed Sender.proceed
  split
  · cases serve w p.state msg <;> rfl
  · exact msgIsComplete_silent

theorem tryProcessReceipt_silent {receipt : Nat} :
    (tryProcessReceipt w silent p receipt).map (fun r => (r.1.state, r.2)) =
      Sender.tryProcessReceipt w p.state receipt := by
  unfold tryProcessReceipt Sender.tryProcessReceipt
  dsimp only
  cases p.state.receipts.findReceipt receipt with
  | none => rfl
  | some j =>
    dsimp only
    split
    · rfl
    · rw [map_bind]
      refine bind_congr fun m => ?_
      dsimp only [getCurrTimeMs]
      rw [map_bind]
      refine bind_congr fun db => ?_
      rw [map_bind]
      refine bind_through (f := Process.state) proceed_silent fun p' => rfl

theorem friendReadReceiptCb_silent {friendNumber messageId : Nat} :
    (friendReadReceiptCb w silent p friendNumber messageId).map (·.state) =
      Sender.friendReadReceiptCb w p.state friendNumber messageId := by
  rw [friendReadReceiptCb, Sender.friendReadReceiptCb, ← tryProcessReceipt_silent]
  cases tryProcessReceipt w silent p messageId with
  | error fault => rfl
  | ok result =>
    obtain ⟨p', processed⟩ := result
    cases processed <;> rfl

theorem insert_eq {limit : BlobLimit} {db : Db} {f : InboundFragment} :
    Database.dbInsertInboundFragment limit db f = (do
      let (db, ready) ← insertUntil limit .readyCallback db f
      if ready.isSome then
        pure (dbUnlock (deleteDataRecord db false f.friendNumber f.id), ready)
      else pure (db, ready)) := by
  unfold Database.dbInsertInboundFragment insertUntil
  simp only [reduceCtorEq, ↓reduceIte]
  rw [bind_assoc]
  refine bind_congr fun db₁ => ?_
  rw [bind_assoc]
  refine bind_congr fun db₂ => ?_
  cases getFragmentsDataRowid db₂ false f.friendNumber f.id with
  | none => rfl
  | some rowid =>
    dsimp only
    cases db₂.fragmentedData.lookup rowid with
    | none => rfl
    | some row =>
      dsimp only
      rw [bind_assoc]
      refine bind_congr fun firstByte => ?_
      split
      · rfl
      · rw [bind_assoc]
        refine bind_congr fun message => ?_
        rw [bind_assoc]
        refine bind_congr fun db₃ => ?_
        cases stmtSelectFragmentedInboundDone db₃ f.friendNumber f.type f.id <;> rfl

/-- The store sees an incoming message as `Receiver.friendMessageCb` says. -/
theorem friendMessageCb_silent {m : Incoming} :
    (friendMessageCb w silent p m).map (·.state.db) =
      (Receiver.friendMessageCb w.limit p.state.db m (w.clock p.state.ticks)).map (·.1) := by
  unfold friendMessageCb Receiver.friendMessageCb
  split
  · unfold processInFragment Receiver.processInFragment
    cases markerParse m.memory m.message.length with
    | none => rfl
    | some fields =>
      dsimp only [getCurrTimeMs]
      rw [dbInsertInboundFragment, insert_eq, map_bind, map_bind, bind_assoc]
      refine bind_congr fun inserted => ?_
      obtain ⟨db, ready⟩ := inserted
      cases ready <;> rfl
  · rfl

/-- The sending half of a process whose client sends nothing when called back
is that of `Sender`. -/
theorem step_silent {call : Call} {op : Op} (own : call.op = some op) :
    (step w silent call p).map (·.state) = Sender.step w op p.state := by
  cases call with
  | message m => cases own
  | send friendNumber type message beyond =>
    cases own
    change Except.map _ (clientSend w p.state ⟨friendNumber, type, message, beyond⟩ >>= _) =
      clientSend w p.state ⟨friendNumber, type, message, beyond⟩
    cases clientSend w p.state ⟨friendNumber, type, message, beyond⟩ <;> rfl
  | receipt friendNumber messageId =>
    cases own
    exact friendReadReceiptCb_silent
  | periodic =>
    cases own
    change Except.map _ (doPeriodic w p.state >>= _) = doPeriodic w p.state
    cases doPeriodic w p.state <;> rfl

end Silent
end Defragmenter.Reentry
