import Defragmenter.Provenance
import Defragmenter.Reentry
import Defragmenter.RemoteAbort
import Defragmenter.Restart

/-! The client's lock over whole runs. Every function of the store takes it and
gives it back, but for one return of `dbInsertInboundFragment`; and two callers
come back to the store with the lock taken: the client, from the callback for a
complete message, and `loadPendingSentMessage`, for a row it discards. -/
namespace Defragmenter.LockDiscipline
open Database InboundStore Split Receipts Sender Moves Provenance Restart Reentry Receiver Marker Decimal

/-- The call has given back the lock it took, and found it free if no flag says otherwise. -/
structure Released (db db' : Db) : Prop where
  held : db'.lock.held = db.lock.held
  nested : db'.lock.nested = (db.lock.nested || db.lock.held != 0)

/-- The place of the fragment is taken in a message still being put together. -/
def Duplicate (f : InboundFragment) (r : Rows) : Prop :=
  r.metaRow.isSome ∧ (r.dataRow.bind (·.message[f.off]?)).any (· ≠ 0) = true

/-- The fragment is the last one its message waits for. -/
def Completes (f : InboundFragment) (r : Rows) : Prop :=
  (r.metaRow.getD (newMeta f)).fragsDone + 1 = (r.metaRow.getD (newMeta f)).fragsNum

/-- How many calls of the base library the client's call makes if it refuses all of them. -/
def callsMade (w : World) (markerMaxSizeEver : Nat) (c : ClientSend) : Nat :=
  if markerExists (memoryOf c.message c.beyond) c.message.length then 0
  else if c.message.length ≤ w.params.maxMessageLength then 1
  else if w.params.fragmentsAtATime = 0 then 0
  else ((splitMessage markerMaxSizeEver c.message w.params.maxMessageLength 0).toOption.map
    (·.numParts)).getD 0

/-- No long message of which the base library, after `n` calls, takes a part. -/
def Unlocked (w : World) (markerMaxSizeEver n : Nat) (c : ClientSend) : Prop :=
  markerExists (memoryOf c.message c.beyond) c.message.length = true ∨
    c.message.length ≤ w.params.maxMessageLength ∨
    ∀ k < callsMade w markerMaxSizeEver c, w.answer (n + k) = 0

instance (w : World) (markerMaxSizeEver n : Nat) (c : ClientSend) :
    Decidable (Unlocked w markerMaxSizeEver n c) :=
  inferInstanceAs (Decidable (_ ∨ _ ∨ _))

/-- Nothing among these calls takes the lock. -/
def Quiet (w : World) (markerMaxSizeEver : Nat) : Nat → List ClientSend → Prop
  | _, [] => True
  | n, c :: rest => Unlocked w markerMaxSizeEver n c ∧
      Quiet w markerMaxSizeEver (n + callsMade w markerMaxSizeEver c) rest

instance decidableQuiet (w : World) (markerMaxSizeEver : Nat) :
    ∀ n calls, Decidable (Quiet w markerMaxSizeEver n calls)
  | _, [] => .isTrue trivial
  | n, c :: rest =>
    have := decidableQuiet w markerMaxSizeEver (n + callsMade w markerMaxSizeEver c) rest
    inferInstanceAs (Decidable (_ ∧ _))

/-- An incoming fragment is no duplicate of one its message is still being put
together from, and if it is the last one, the client sends no long message in answer. -/
def Guarded (w : World) (client : Nat → List ClientSend) (p : Process) : Call → Prop
  | .message m => ∀ fields ∈ markerParse m.memory m.message.length,
      let f := inFragment m (w.clock p.state.ticks) fields
      ¬ Duplicate f (rows p.state.db f.key) ∧ (Completes f (rows p.state.db f.key) →
        Quiet w p.state.markerMaxSizeEver p.state.base.length (client p.callbacks))
  | _ => True

instance (f : InboundFragment) (r : Rows) : Decidable (Duplicate f r) :=
  inferInstanceAs (Decidable (_ ∧ _))

instance (f : InboundFragment) (r : Rows) : Decidable (Completes f r) :=
  inferInstanceAs (Decidable (_ = _))

instance (w : World) (client : Nat → List ClientSend) (p : Process) :
    DecidablePred (Guarded w client p)
  | .message m => inferInstanceAs (Decidable (∀ fields ∈ markerParse m.memory m.message.length, _))
  | .send .. => .isTrue trivial
  | .receipt .. => .isTrue trivial
  | .periodic => .isTrue trivial

/-- A process over any stored rows of which none is discarded. -/
def Begun (w : World) (p : Process) : Prop :=
  ∃ db : Db, db.lock = {} ∧ (∀ row ∈ stmtSelectFragmentedOutboundPending db, (loaded w row).isSome) ∧
    initializeBoth w { db } = .ok p.state ∧ p.callbacks = 0

variable {w : World} {client : Nat → List ClientSend} {limit : BlobLimit} {db db' : Db}
  {f : InboundFragment} {s s' : State} {p p' : Process}

/-! ## One call of the store -/

theorem Released.free (released : Released db db') (free : db.lock = {}) : db'.lock = {} := by
  obtain ⟨held, nested⟩ := released
  rw [free] at held nested
  cases here : db'.lock
  rw [here] at held nested
  cases held
  cases nested
  rfl

theorem released_unlock (kept : db'.lock = (dbLock db).lock) : Released db (dbUnlock db') where
  held := by rw [dbUnlock, kept, dbLock, Nat.add_sub_cancel]
  nested := by rw [dbUnlock, kept, dbLock]

theorem insertOutbound_released {friendNumber id tm numParts receipt : Nat} {type : Int}
    {data : List UInt8} (ran : dbInsertOutboundMessage limit db friendNumber type id tm numParts data
      receipt = .ok db') : Released db db' := by
  obtain ⟨_, _, rfl⟩ := OutboundStore.insert_ok_iff.mp ran
  exact released_unlock rfl

theorem updateMeta_lock {outbound : Bool} {tm friendNumber id : Nat}
    (ran : updateFragmentedMetaDone db outbound tm friendNumber id = .ok db') :
    db'.lock = db.lock := by
  unfold updateFragmentedMetaDone at ran
  split at ran
  · cases ran
  · cases ran
    rfl

theorem partConfirmed_released {friendNumber id partNo tm : Nat}
    (ran : dbOutboundPartConfirmed db friendNumber id partNo tm = .ok db') : Released db db' := by
  unfold dbOutboundPartConfirmed at ran
  dsimp only at ran
  split at ran
  · cases ran
  · split at ran
    · cases ran
    · split at ran
      · cases ran
      · obtain ⟨confirmed, _, ran⟩ := bind_ok.mp ran
        obtain ⟨db₁, updated, ran⟩ := bind_ok.mp ran
        cases ran
        have kept := updateMeta_lock updated
        exact released_unlock kept

theorem clearPending_released {friendNumber id : Nat} :
    Released db (dbClearOutboundPending db friendNumber id) :=
  released_unlock rfl

/-- What the call does up to its callback, behind the two inserts. -/
theorem fillUntil_lock {ready : Option MsgReady}
    (ran : fillUntil .readyCallback db f = .ok (db', ready)) :
    (∃ row b, db.fragmentedData.lookup f.key = some row ∧ row.message[f.off]? = some b ∧ b ≠ 0) ∨
    (ready = none ∧ db'.lock = (dbUnlock db).lock) ∨ (ready.isSome ∧ db'.lock = db.lock) := by
  unfold fillUntil at ran
  cases found : db.fragmentedData.lookup f.key with
  | none =>
    have missing : getFragmentsDataRowid db false f.friendNumber f.id = none := by
      rw [getFragmentsDataRowid, if_neg]
      rw [show db.fragmentedData.lookup ⟨false, f.friendNumber, f.id⟩ = none from found]
      decide
    rw [missing] at ran
    cases ran
    exact .inr (.inl ⟨rfl, rfl⟩)
  | some row =>
    have present : getFragmentsDataRowid db false f.friendNumber f.id = some f.key := by
      rw [getFragmentsDataRowid, if_pos]
      · rfl
      · rw [show db.fragmentedData.lookup ⟨false, f.friendNumber, f.id⟩ = some row from found]
        rfl
    rw [present] at ran
    dsimp only at ran
    rw [found] at ran
    obtain ⟨firstByte, read, ran⟩ := bind_ok.mp ran
    split at ran
    · rename_i taken
      refine .inl ⟨row, ?_⟩
      rw [readBlob_one] at read
      cases probe : row.message[f.off]? with
      | none =>
        rw [probe] at read
        cases read
      | some b =>
        rw [probe] at read
        cases read
        exact ⟨b, rfl, rfl, fun zero => taken (congrArg (fun b => [b]) zero)⟩
    · obtain ⟨message, _, ran⟩ := bind_ok.mp ran
      simp only [reduceCtorEq, ↓reduceIte] at ran
      obtain ⟨db₁, updated, ran⟩ := bind_ok.mp ran
      have kept := updateMeta_lock updated
      split at ran
      · cases ran
        exact .inr (.inr ⟨rfl, kept⟩)
      · cases ran
        refine .inr (.inl ⟨rfl, ?_⟩)
        rw [dbUnlock, kept]
        rfl

/-- Up to its callback the call gives the lock back, unless the fragment is a
duplicate or the callback is to come. -/
theorem insertUntil_lock {ready : Option MsgReady}
    (ran : insertUntil limit .readyCallback db f = .ok (db', ready)) (new : ¬ Duplicate f (rows db f.key)) :
    (ready = none ∧ Released db db') ∨ (ready.isSome ∧ db'.lock = (dbLock db).lock) := by
  rw [insertUntil_eq] at ran
  obtain ⟨db₁, first, ran⟩ := bind_ok.mp ran
  simp only [reduceCtorEq, ↓reduceIte] at ran
  obtain ⟨db₂, second, ran⟩ := bind_ok.mp ran
  have filled := fillUntil_lock ran
  have begun : db₂.lock = (dbLock db).lock ∧ ∀ row b, db₂.fragmentedData.lookup f.key = some row →
      row.message[f.off]? = some b → b ≠ 0 → Duplicate f (rows db f.key) := by
    cases known : db.fragmentedMeta.lookup f.key with
    | some m =>
      have known' : ((dbLock db).fragmentedMeta.lookup ⟨false, f.friendNumber, f.id⟩).isSome :=
        Option.isSome_of_eq_some known
      rw [stmtInsertFragmentedDataInbound, if_pos known'] at first
      cases first
      rw [stmtInsertFragmentedMetaInbound, if_pos known'] at second
      cases second
      refine ⟨rfl, fun row b found at_off taken => ⟨Option.isSome_of_eq_some known, ?_⟩⟩
      have here : (rows db f.key).dataRow = some row := found
      rw [here, Option.bind_some, at_off]
      simpa using taken
    | none =>
      have unknown : ¬ ((dbLock db).fragmentedMeta.lookup ⟨false, f.friendNumber, f.id⟩).isSome := by
        rw [show (dbLock db).fragmentedMeta.lookup ⟨false, f.friendNumber, f.id⟩ = none from known]
        decide
      rw [stmtInsertFragmentedDataInbound, if_neg unknown] at first
      obtain ⟨message, blank, first⟩ := bind_ok.mp first
      obtain ⟨table, inserted, first⟩ := bind_ok.mp first
      cases first
      rw [stmtInsertFragmentedMetaInbound, if_neg unknown] at second
      obtain ⟨metas, _, second⟩ := bind_ok.mp second
      cases second
      refine ⟨rfl, fun row b found at_off taken => absurd ?_ taken⟩
      have table' : table = (dbLock db).fragmentedData.insert f.key { message } := by
        unfold insertRow at inserted
        split at inserted
        · cases inserted
        · exact (Except.ok.inj inserted).symm
      rw [table', AList.lookup_insert, Option.some.injEq] at found
      subst found
      have zeros : message = List.replicate (f.sz : Int).toNat 0 := by
        unfold zeroblob at blank
        split at blank
        · cases blank
        · exact (Except.ok.inj blank).symm
      rw [zeros, List.getElem?_replicate] at at_off
      split at at_off
      · exact (Option.some.inj at_off).symm
      · cases at_off
  obtain ⟨locked, duplicate⟩ := begun
  rcases filled with ⟨row, b, found, at_off, taken⟩ | ⟨rfl, lock⟩ | ⟨complete, lock⟩
  · exact absurd (duplicate row b found at_off taken) new
  · have released := released_unlock locked
    exact .inl ⟨rfl, ⟨(congrArg Lock.held lock).trans released.held,
      (congrArg Lock.nested lock).trans released.nested⟩⟩
  · exact .inr ⟨complete, lock.trans locked⟩

theorem depositUntil_ready {m : MetaRow} {d : DataRow} {r : Rows} {ready : Option MsgReady}
    (step : depositUntil .readyCallback f m d = .ok (r, ready)) (complete : ready.isSome) :
    m.fragsDone + 1 = m.fragsNum := by
  unfold depositUntil at step
  split at step
  · cases step
  · split at step
    · cases step
      cases complete
    · split at step
      · cases step
      · simp only [reduceCtorEq, ↓reduceIte] at step
        split at step
        · rename_i all
          rwa [counted_fragsDone, counted_fragsNum] at all
        · cases step
          cases complete

/-- The callback comes for the last fragment only. -/
theorem completes_of_ready {ready : Option MsgReady}
    (ran : insertUntil limit .readyCallback db f = .ok (db', ready)) (complete : ready.isSome) :
    Completes f (rows db f.key) := by
  have agrees := insertUntil_receive limit .readyCallback db f
  cases outcome : receiveUntil limit .readyCallback f (rows db f.key) with
  | error fault =>
    rw [outcome] at agrees
    rw [agrees] at ran
    cases ran
  | ok result =>
    rw [outcome] at agrees
    obtain ⟨db₁, run, _⟩ := agrees
    rw [run] at ran
    cases ran
    unfold receiveUntil at outcome
    unfold Completes
    split at outcome
    · cases outcome
      cases complete
    · cases outcome
    · rename_i m d known _
      simp only [reduceCtorEq, or_self, ↓reduceIte] at outcome
      rw [known]
      exact depositUntil_ready outcome complete
    · rename_i unknown _
      simp only [reduceCtorEq, ↓reduceIte] at outcome
      split at outcome
      · cases outcome
      · rw [unknown]
        exact depositUntil_ready outcome complete

/-! ## Calls of the sending half -/

theorem move_free {label : Label} {v v' : View} (move : Move w label v v') (free : v.s.db.lock = {}) :
    v'.s.db.lock = {} := by
  cases move with
  | opened _ _ _ _ stored => exact (insertOutbound_released stored).free free
  | confirmed _ _ _ _ stored => exact (partConfirmed_released stored).free free
  | completed => exact clearPending_released.free free
  | _ => exact free

theorem chain_free {admitted : Label → Prop} {v v' : View} (chain : Chain w admitted v v')
    (free : v.s.db.lock = {}) : v'.s.db.lock = {} :=
  chain.invariant (I := fun v => v.s.db.lock = {}) (fun _ move before => move_free move before) free

theorem clientSend_free {c : ClientSend} (ran : clientSend w s c = .ok s') (free : s.db.lock = {}) :
    s'.db.lock = {} := by
  have chain : Chain w Sending ⟨s, none, none⟩ ⟨s', none, none⟩ :=
    @send_chain w s s' c.friendNumber c.type c.message c.beyond ran
  exact chain_free chain free

theorem clientSends_free {calls : List ClientSend} : ∀ {s : State},
    calls.foldlM (clientSend w) s = .ok s' → s.db.lock = {} → s'.db.lock = {} := by
  induction calls with
  | nil =>
    intro s ran free
    cases ran
    exact free
  | cons c rest ih =>
    intro s ran free
    rw [List.foldlM_cons] at ran
    obtain ⟨s₁, sent, ran⟩ := bind_ok.mp ran
    exact ih ran (clientSend_free sent free)

/-- A callback that the store does not make. -/
theorem callBack_free (ran : callBack w client p = .ok p') (free : p.state.db.lock = {}) :
    p'.state.db.lock = {} := by
  obtain ⟨state, sent, ran⟩ := bind_ok.mp ran
  cases ran
  exact clientSends_free sent free

theorem serve_free {msg : Nat} (ran : serve w s msg = .ok s') (free : s.db.lock = {}) :
    s'.db.lock = {} :=
  chain_free (serve_serves none ran).chain free

theorem periodic_free (ran : doPeriodic w s = .ok s') (free : s.db.lock = {}) : s'.db.lock = {} :=
  chain_free (periodic_chain_noReceipt ran) free

theorem msgIsComplete_free {msg : Nat} (ran : msgIsComplete w client p msg = .ok p')
    (free : p.state.db.lock = {}) : p'.state.db.lock = {} := by
  obtain ⟨m, _, ran⟩ := bind_ok.mp ran
  obtain ⟨p₁, told, ran⟩ := bind_ok.mp ran
  obtain ⟨m', _, ran⟩ := bind_ok.mp ran
  cases ran
  have after : p₁.state.db.lock = {} := callBack_free told free
  exact clearPending_released.free after

theorem proceed_free {msg : Nat} {m : MsgOutbound} (ran : proceed w client p msg m = .ok p')
    (free : p.state.db.lock = {}) : p'.state.db.lock = {} := by
  unfold Reentry.proceed at ran
  split at ran
  · obtain ⟨state, served, ran⟩ := bind_ok.mp ran
    cases ran
    exact serve_free served free
  · exact msgIsComplete_free ran free

theorem tryProcessReceipt_free {messageId : Nat} {processed : Bool}
    (ran : tryProcessReceipt w client p messageId = .ok (p', processed)) (free : p.state.db.lock = {}) :
    p'.state.db.lock = {} := by
  unfold Reentry.tryProcessReceipt at ran
  dsimp only at ran
  split at ran
  · cases ran
    exact free
  · split at ran
    · cases ran
      exact free
    · obtain ⟨m, _, ran⟩ := bind_ok.mp ran
      obtain ⟨db, stored, ran⟩ := bind_ok.mp ran
      obtain ⟨p₁, went, ran⟩ := bind_ok.mp ran
      cases ran
      have after : p₁.state.db.lock = {} :=
        proceed_free went (by exact (partConfirmed_released stored).free free)
      exact after

theorem receipt_free {friendNumber messageId : Nat}
    (ran : friendReadReceiptCb w client p friendNumber messageId = .ok p')
    (free : p.state.db.lock = {}) : p'.state.db.lock = {} := by
  obtain ⟨⟨p₁, processed⟩, tried, ran⟩ := bind_ok.mp ran
  have after := tryProcessReceipt_free tried free
  dsimp only at ran
  split at ran
  · cases ran
    exact after
  · exact callBack_free ran after

/-! ## What the client sends inside the store -/

/-- The loop of a long send whose parts are all refused. -/
theorem sendFrom_refused {msg count : Nat} {m : MsgOutbound} (room : m.numTransit < w.params.fragmentsAtATime) :
    ∀ {i : Nat} {s : State}, s.heap msg = some m →
      (∀ k < count, w.answer (s.base.length + k) = 0) → sendFrom w msg count i s = .ok s' →
      s'.heap msg = some m ∧ s'.db = s.db ∧ s'.markerMaxSizeEver = s.markerMaxSizeEver ∧
        s'.base.length = s.base.length + count := by
  induction count with
  | zero =>
    intro i s found _ ran
    cases ran
    exact ⟨found, rfl, rfl, rfl⟩
  | succ count ih =>
    intro i s found refuses ran
    have refused : w.answer s.base.length = 0 := refuses 0 (Nat.succ_pos count)
    rw [sendFrom_succ found, if_pos room, if_pos refused] at ran
    have grown : (refusedState s msg m i).base.length = s.base.length + 1 := by
      simp [refusedState]
    have rest : ∀ k < count, w.answer ((refusedState s msg m i).base.length + k) = 0 := by
      intro k inside
      rw [grown, Nat.add_assoc, Nat.add_comm 1 k]
      exact refuses (k + 1) (Nat.succ_lt_succ inside)
    obtain ⟨found', store, marker, base⟩ := ih (s := refusedState s msg m i) found rest ran
    refine ⟨found', store, marker, ?_⟩
    rw [base, grown]
    omega

/-- The number of parts does not depend on the id. -/
theorem numParts_split {big maxLength id : Nat} {message : List UInt8} {m : MsgOutbound}
    (split : splitMessage big message maxLength id = .ok m) :
    ((splitMessage big message maxLength 0).toOption.map (·.numParts)).getD 0 = m.numParts := by
  unfold splitMessage at split ⊢
  dsimp only at split ⊢
  split at split
  · cases split
  · split at split
    · cases split
    · cases split
      rw [if_neg ‹_›, if_neg ‹_›]
      rfl

theorem clientSend_unlocked {c : ClientSend} (unlocked : Unlocked w s.markerMaxSizeEver s.base.length c)
    (ran : clientSend w s c = .ok s') : s'.db = s.db ∧ s'.markerMaxSizeEver = s.markerMaxSizeEver ∧
      s'.base.length = s.base.length + callsMade w s.markerMaxSizeEver c := by
  obtain ⟨⟨s₁, receipt⟩, sent, ran⟩ := bind_ok.mp ran
  cases ran
  unfold friendSendMessage at sent
  split at sent
  · rename_i marked
    cases sent
    refine ⟨rfl, rfl, ?_⟩
    rw [callsMade, if_pos marked, Nat.add_zero]
  · rename_i plain
    split at sent
    · rename_i short
      cases sent
      refine ⟨rfl, rfl, ?_⟩
      rw [callsMade, if_neg plain, if_pos short]
      simp
    · rename_i long
      have refuses : ∀ k < callsMade w s.markerMaxSizeEver c, w.answer (s.base.length + k) = 0 := by
        rcases unlocked with marked | short | refuses
        · exact absurd marked plain
        · exact absurd short long
        · exact refuses
      obtain ⟨m, split, sent⟩ := bind_ok.mp sent
      obtain ⟨s₂, window, sent⟩ := bind_ok.mp sent
      obtain ⟨m₂, found₂, sent⟩ := bind_ok.mp sent
      change sendFrom w s.fresh m.numParts 0 (begunState w s c.friendNumber m) = .ok s₂ at window
      have found : (begunState w s c.friendNumber m).heap s.fresh =
          some { m with friendNumber := c.friendNumber } := by
        simp [begunState]
      have idle : m.numTransit = 0 := (unsent_of_split split).numTransit
      have refused : s₂.heap s.fresh = some { m with friendNumber := c.friendNumber } ∧ s₂.db = s.db ∧
          s₂.markerMaxSizeEver = s.markerMaxSizeEver ∧
          s₂.base.length = s.base.length + callsMade w s.markerMaxSizeEver c := by
        by_cases closed : w.params.fragmentsAtATime = 0
        · have none : callsMade w s.markerMaxSizeEver c = 0 := by
            rw [callsMade, if_neg plain, if_neg long, if_pos closed]
          have same : s₂ = begunState w s c.friendNumber m := by
            cases parts : m.numParts with
            | zero =>
              rw [parts] at window
              exact (Except.ok.inj window).symm
            | succ count =>
              rw [parts, sendFrom_succ found, if_neg (by omega)] at window
              exact (Except.ok.inj window).symm
          subst same
          exact ⟨found, rfl, rfl, by rw [none]; rfl⟩
        · have all : callsMade w s.markerMaxSizeEver c = m.numParts := by
            rw [callsMade, if_neg plain, if_neg long, if_neg closed]
            exact numParts_split split
          rw [all] at refuses ⊢
          have room : ({ m with friendNumber := c.friendNumber } : MsgOutbound).numTransit <
              w.params.fragmentsAtATime := by
            change m.numTransit < _
            omega
          exact sendFrom_refused (s := begunState w s c.friendNumber m) room found refuses window
      obtain ⟨found', store, marker, base⟩ := refused
      have same := found'.symm.trans (msgAt_ok.mp found₂)
      cases same
      rw [if_neg (by simpa using idle)] at sent
      cases sent
      exact ⟨store, marker, base⟩

theorem quiet_sends {calls : List ClientSend} : ∀ {s : State},
    Quiet w s.markerMaxSizeEver s.base.length calls → calls.foldlM (clientSend w) s = .ok s' →
      s'.db = s.db := by
  induction calls with
  | nil =>
    intro s _ ran
    cases ran
    rfl
  | cons c rest ih =>
    intro s quiet ran
    rw [List.foldlM_cons] at ran
    obtain ⟨s₁, sent, ran⟩ := bind_ok.mp ran
    obtain ⟨unlocked, later⟩ := quiet
    obtain ⟨store, marker, base⟩ := clientSend_unlocked unlocked sent
    rw [← base, ← marker] at later
    exact (ih later ran).trans store

/-! ## Incoming messages -/

theorem message_free {m : Incoming} (ran : friendMessageCb w client p m = .ok p')
    (guarded : Guarded w client p (.message m)) (free : p.state.db.lock = {}) :
    p'.state.db.lock = {} := by
  unfold Reentry.friendMessageCb at ran
  split at ran
  · unfold Reentry.processInFragment at ran
    split at ran
    · cases ran
    · rename_i fields parsed
      obtain ⟨new, answered⟩ := guarded fields parsed
      obtain ⟨⟨db, ready⟩, inserted, ran⟩ := bind_ok.mp ran
      have complete := fun present => answered (completes_of_ready inserted present)
      rcases insertUntil_lock inserted new with ⟨rfl, released⟩ | ⟨present, locked⟩
      · cases ran
        exact released.free free
      · obtain ⟨r, rfl⟩ := Option.isSome_iff_exists.mp present
        obtain ⟨p₁, told, ran⟩ := bind_ok.mp ran
        cases ran
        obtain ⟨state, sent, told⟩ := bind_ok.mp told
        cases told
        have store : state.db = db :=
          quiet_sends (s := { p.state with ticks := p.state.ticks + 1, db }) (complete present) sent
        have kept : (deleteDataRecord state.db false (inFragment m (w.clock p.state.ticks) fields).friendNumber
            (inFragment m (w.clock p.state.ticks) fields).id).lock = (dbLock p.state.db).lock := by
          rw [deleteDataRecord, store]
          exact locked
        exact (released_unlock kept).free free
  · exact callBack_free ran free

theorem step_free {call : Call} (free : p.state.db.lock = {}) (guarded : Guarded w client p call)
    (ran : Reentry.step w client call p = .ok p') : p'.state.db.lock = {} := by
  cases call with
  | message m => exact message_free ran guarded free
  | send friendNumber type message beyond =>
    obtain ⟨state, sent, ran⟩ := bind_ok.mp ran
    cases ran
    exact clientSend_free sent free
  | receipt friendNumber messageId => exact receipt_free ran free
  | periodic =>
    obtain ⟨state, passed, ran⟩ := bind_ok.mp ran
    cases ran
    exact periodic_free passed free

/-! ## Starting -/

/-- A row that is no use is discarded under the lock; any other leaves the store alone. -/
theorem settled_store {rows : List PendingSent} (kept : ∀ row ∈ rows, (loaded w row).isSome) :
    (rows.foldl (fun s row => settle s row (loaded w row)) s).db = s.db := by
  induction rows generalizing s with
  | nil => rfl
  | cons row rest ih =>
    obtain ⟨m, found⟩ := Option.isSome_iff_exists.mp (kept row List.mem_cons_self)
    rw [List.foldl_cons, ih fun other member => kept other (List.mem_cons_of_mem row member), found]
    rfl

theorem begun_free (begun : Begun w p) : p.state.db.lock = {} := by
  obtain ⟨db, free, kept, started, _⟩ := begun
  obtain ⟨s₁, settled, finished⟩ := started_settled started
  have store : s₁.db = dbLock db := by
    rw [settled]
    exact settled_store kept
  have released : Released db (dbUnlock s₁.db) := released_unlock (by rw [store])
  rw [finished]
  exact released.free free

/-- In every run in which no row is discarded at the start, no duplicate comes
in for a message still being put together, and the client sends no long message
in answer to a complete one, the lock is never asked for while it is taken, and
every call of the store that returned has given it back. -/
theorem lock_free_of_guarded {ops : List Call}
    (run : Runs.Run (Reentry.step w client) (Guarded w client) (Begun w) ops p) :
    p.state.db.lock.held = 0 ∧ p.state.db.lock.nested = false := by
  have free : p.state.db.lock = {} := by
    refine run.invariant (I := fun p => p.state.db.lock = {}) (fun _ => begun_free) ?_
    intro p call p' before guarded ran
    exact step_free before guarded ran
  rw [free]
  exact ⟨rfl, rfl⟩

theorem begun_fresh (w : World) : Begun w { state := initialState w } :=
  ⟨{}, rfl, fun _ member => (List.not_mem_nil member).elim, started_initialState w, rfl⟩

def answering : World := scripted { maxMessageLength := 64 } [5, 6, 7, 8, 9] []

/-- A client that answers the first callback by a short message and any other by a long one. -/
def talkative : Nat → List ClientSend
  | 0 => [⟨7, 0, [104], fun _ => 0⟩]
  | _ => [⟨1, 0, List.replicate 65 2, fun _ => 0⟩]

/-- A message comes in and is answered; one is sent and confirmed, and the client
sends another when it hears so. -/
theorem lock_free_of_answer : ∃ p,
    Runs.Run (Reentry.step answering talkative) (Guarded answering talkative) (Begun answering)
      [.receipt 1 7, .receipt 1 6, .send 1 0 (List.replicate 65 3) fun _ => 0,
        .message RemoteAbort.wellPlaced] p ∧
    p.callbacks = 2 ∧ p.state.base.length = 5 ∧
    p.state.db.lock.held = 0 ∧ p.state.db.lock.nested = false := by
  obtain ⟨p, run, checked⟩ := Runs.exists_run (Reentry.step answering talkative)
    (Guarded answering talkative)
    [.message RemoteAbort.wellPlaced, .send 1 0 (List.replicate 65 3) fun _ => 0, .receipt 1 6,
      .receipt 1 7]
    (fun p => p.callbacks = 2 ∧ p.state.base.length = 5) (begun_fresh answering) (by decide +kernel)
  obtain ⟨callbacks, calls⟩ := of_decide_eq_true checked
  exact ⟨p, run, callbacks, calls, lock_free_of_guarded run⟩

/-- A fragment comes again: the lock stays taken, and the next call asks for it. -/
theorem lock_kept_by_duplicate : ∃ p,
    Runs.Run (Reentry.step answering silent) (fun _ _ => True) (Begun answering)
      [.message (packet (uniformLetter 1) 0 0), .message (packet (uniformLetter 1) 0 0),
        .message (packet (uniformLetter 1) 0 0)] p ∧
      p.state.db.lock.held = 2 ∧ p.state.db.lock.nested = true := by
  obtain ⟨p, run, checked⟩ := Runs.exists_run (Reentry.step answering silent) (fun _ _ => True)
    [.message (packet (uniformLetter 1) 0 0), .message (packet (uniformLetter 1) 0 0),
      .message (packet (uniformLetter 1) 0 0)]
    (fun p => p.state.db.lock.held = 2 ∧ p.state.db.lock.nested = true) (begun_fresh answering)
    (by decide +kernel)
  obtain ⟨held, nested⟩ := of_decide_eq_true checked
  exact ⟨p, run, held, nested⟩

end Defragmenter.LockDiscipline
