import Defragmenter.Moves
import Defragmenter.OutboundStore

/-! The sending half over a store that it shares. Its calls read and write rows
of outgoing messages only, so over any store with the same such rows they do
the same, and the rows of incoming messages stay. -/
namespace Defragmenter.Halves
open Database InboundStore OutboundStore Split Receipts Sender Moves

/-- The process with another store. -/
def onStore (s : State) (db : Db) : State := { s with db }

/-- The states are alike but for what the stores hold of incoming messages. -/
structure Alike (s t : State) : Prop where
  process : t = onStore s t.db
  outgoing : ∀ key, key.outbound = true → rows t.db key = rows s.db key

/-- The stores hold the same of incoming messages. -/
def SameIncoming (db db' : Db) : Prop := ∀ key, key.outbound = false → rows db' key = rows db key

variable {w : World} {s s' t : State} {db db' db₁ : Db} {msg i : Nat} {m : MsgOutbound}

theorem Alike.refl (s : State) : Alike s s := ⟨rfl, fun _ _ => rfl⟩

theorem Alike.trans {t' : State} (alike : Alike s t) (alike' : Alike t t') : Alike s t' := by
  refine ⟨?_, fun key outbound => (alike'.outgoing key outbound).trans (alike.outgoing key outbound)⟩
  rw [alike'.process, alike.process]
  rfl

theorem Alike.symm (alike : Alike s t) : Alike t s := by
  refine ⟨?_, fun key outbound => (alike.outgoing key outbound).symm⟩
  rw [alike.process]
  rfl

/-! ## What does not come to the store -/

/-- The computation leaves the store alone and does not look at it. -/
def Storeless (f : State → Except Fault State) : Prop :=
  ∀ s db, f (onStore s db) = (f s).map (onStore · db)

theorem Storeless.kept {f : State → Except Fault State} (storeless : Storeless f) (ran : f s = .ok s') :
    s'.db = s.db := by
  have same : f s = (f s).map (onStore · s.db) := storeless s s.db
  rw [ran] at same
  have same : s' = onStore s' s.db := Except.ok.inj same
  rw [same]
  rfl

theorem Storeless.alike {f : State → Except Fault State} (storeless : Storeless f) (alike : Alike s t)
    (ran : f s = .ok s') : ∃ t', f t = .ok t' ∧ Alike s' t' ∧ t'.db = t.db := by
  have moved := storeless s t.db
  rw [← alike.process, ran] at moved
  refine ⟨_, moved, ⟨rfl, fun key outbound => ?_⟩, rfl⟩
  rw [storeless.kept ran]
  exact alike.outgoing key outbound

/-- A storeless computation after another one. -/
theorem bind_storeless {α : Type} {x y : Except Fault α} {f : α → α} {g h : α → Except Fault State}
    (first : y = x.map f) (second : ∀ a, h (f a) = (g a).map (onStore · db)) :
    y >>= h = (x >>= g).map (onStore · db) := by
  subst first
  cases x with
  | error fault => rfl
  | ok a => exact second a

/-- A message is read, which is not in the store. -/
theorem Storeless.read {f : MsgOutbound → State → Except Fault State} (storeless : ∀ m, Storeless (f m)) :
    Storeless fun s => s.msgAt msg >>= fun m => f m s := by
  intro s db
  change s.msgAt msg >>= _ = Except.map _ (s.msgAt msg >>= _)
  cases s.msgAt msg with
  | error fault => rfl
  | ok m => exact storeless m s db

theorem Storeless.then {f g : State → Except Fault State} (first : Storeless f) (second : Storeless g) :
    Storeless fun s => f s >>= g := by
  intro s db
  exact bind_storeless (first s db) fun s₁ => second s₁ db

theorem msgSendPart_over (s : State) (db : Db) :
    msgSendPart w (onStore s db) msg i = (msgSendPart w s msg i).map fun r => (onStore r.1 db, r.2) := by
  unfold msgSendPart
  change s.msgAt msg >>= _ = Except.map _ (s.msgAt msg >>= _)
  cases s.msgAt msg with
  | error fault => rfl
  | ok m =>
    simp only [bind, Except.bind, toxFriendSendMessage]
    change (if w.answer s.base.length = 0 then _ else _) = Except.map _ (if w.answer s.base.length = 0 then _ else _)
    split <;> rfl

/-- A part is sent, and what follows depends on whether it went out. -/
theorem storeless_sendPart {f : Bool → State → Except Fault State} (storeless : ∀ sent, Storeless (f sent)) :
    Storeless fun s => msgSendPart w s msg i >>= fun r => f r.2 r.1 := by
  intro s db
  exact bind_storeless (msgSendPart_over s db) fun r => storeless r.2 r.1 db

theorem sendFrom_storeless {count : Nat} : ∀ {i : Nat}, Storeless (sendFrom w msg count i) := by
  induction count with
  | zero => exact fun _ _ => rfl
  | succ count ih =>
    intro i
    apply Storeless.read
    intro m
    by_cases room : m.numTransit < w.params.fragmentsAtATime
    · simp only [room, ↓reduceIte]
      apply storeless_sendPart (f := fun sent s => if sent = true then
        s.msgAt msg >>= fun m => sendFrom w msg count (i + 1) (s.setMsg msg { m with lastSent := i })
        else sendFrom w msg count (i + 1) s)
      intro sent
      cases sent with
      | false => exact ih
      | true => exact Storeless.read fun m s db => ih (s.setMsg msg { m with lastSent := i }) db
    · simp only [room, ↓reduceIte]
      exact fun _ _ => rfl

theorem sendFailed_storeless {count : Nat} : ∀ {i : Nat}, Storeless (sendFailed w msg count i) := by
  induction count with
  | zero => exact fun _ _ => rfl
  | succ count ih =>
    intro i
    apply Storeless.read
    intro m
    dsimp only
    split
    · split
      · apply storeless_sendPart (f := fun _ s => sendFailed w msg count (i + 1) s)
        exact fun _ => ih
      · exact ih
    · exact fun _ _ => rfl

theorem msgSendNextParts_storeless : Storeless fun s => msgSendNextParts w s msg := by
  apply Storeless.read
  intro m
  exact sendFrom_storeless.then sendFailed_storeless

theorem serve_storeless : Storeless fun s => serve w s msg := by
  intro s db
  change (if w.online s.polls = true then _ else _) = Except.map _ (if w.online s.polls = true then _ else _)
  split
  · exact msgSendNextParts_storeless { s with polls := s.polls + 1 } db
  · rfl

theorem serveAll_storeless {msgs : List Nat} : Storeless (msgs.foldlM (serve w)) := by
  induction msgs with
  | nil => exact fun _ _ => rfl
  | cons msg rest ih =>
    intro s db
    simp only [List.foldlM_cons]
    exact serve_storeless.then ih s db

theorem resendFrom_storeless {now fuel : Nat} : ∀ {i : Nat}, Storeless (resendFrom w now fuel i) := by
  induction fuel with
  | zero => exact fun _ _ => rfl
  | succ fuel ih =>
    intro i s db
    unfold resendFrom
    change (if i < s.receipts.hi then _ else _) = Except.map _ (if i < s.receipts.hi then _ else _)
    split
    · change (if expired w now (s.receipts.receipts i) = true then _ else _) =
        Except.map _ (if expired w now (s.receipts.receipts i) = true then _ else _)
      split
      · have goes : Storeless fun s₁ => s₁.msgAt (s.receipts.receipts i).msg >>= fun m =>
            msgSendPart w (s₁.setMsg (s.receipts.receipts i).msg (partLost m)) (s.receipts.receipts i).msg
              ((s.receipts.receipts i).partNo - 1) >>= fun r => resendFrom w now fuel (i + 1) r.1 := by
          refine Storeless.read fun m s₁ db => ?_
          exact storeless_sendPart (f := fun _ => resendFrom w now fuel (i + 1)) (fun _ => ih) (s₁.setMsg _ _) db
        exact goes { s with receipts := { s.receipts.clear i with num := s.receipts.num - 1 } } db
      · exact ih s db
    · rfl

theorem doPeriodic_storeless : Storeless (doPeriodic w) := by
  apply Storeless.then
  · intro s db
    unfold resendExpiredReceipts
    change (if s.receipts.num = 0 then _ else _) = Except.map _ (if s.receipts.num = 0 then _ else _)
    split
    · rfl
    · exact resendFrom_storeless { s with ticks := s.ticks + 1 } db
  · exact fun s db => serveAll_storeless s db

/-! ## What does -/

variable {friendNumber id partNo tm numParts receipt : Nat} {type : Int} {data : List UInt8} {limit : BlobLimit} {key : Key}

/-- What a receipt does to the rows of its message. -/
def confirmRows (partNo tm : Nat) (r : Rows) : Except Fault Rows :=
  match r.dataRow with
  | none => .error .abort
  | some stored =>
    match stored.confirmed with
    | none => .error .abort
    | some blob =>
      match writeBlob blob [1] 1 (toUnsigned ((partNo : Int) - 1)), r.metaRow with
      | .ok confirmed, some row => .ok ⟨
          some { row with
            timestampLast := max row.timestampLast (toInt32 tm)
            fragsDone := row.fragsDone + 1 },
          some { stored with confirmed := some confirmed }⟩
      | _, _ => .error .abort

theorem confirmRows_eq : (dbOutboundPartConfirmed db friendNumber id partNo tm).map
      (rows · (outboundKey friendNumber id)) =
    confirmRows partNo tm (rows db (outboundKey friendNumber id)) := by
  have lockless : rows db (outboundKey friendNumber id) = rows (dbLock db) (outboundKey friendNumber id) := rfl
  rw [lockless]
  simp only [dbOutboundPartConfirmed, getFragmentsDataRowid, confirmRows, rows, outboundKey]
  cases found : (dbLock db).fragmentedData.lookup ⟨true, friendNumber, id⟩ with
  | none => rfl
  | some stored =>
    simp only [Option.isSome_some, ↓reduceIte, found]
    cases stored.confirmed with
    | none => rfl
    | some blob =>
      by_cases fits : toUnsigned ((partNo : Int) - 1) + 1 ≤ blob.length
      · simp only [writeBlob, fits, ↓reduceIte, bind, Except.bind, updateFragmentedMetaDone]
        cases (dbLock db).fragmentedMeta.lookup ⟨true, friendNumber, id⟩ with
        | none => rfl
        | some row => simp [Except.map, pure, Except.pure, dbUnlock]
      · simp only [writeBlob, fits, ↓reduceIte]
        rfl

/-- Two stores that hold the same of outgoing messages go on alike. -/
theorem outgoing_of_key (outgoing : ∀ key, key.outbound = true → rows db₁ key = rows db key)
    {db₁' : Db} (agree : AgreeOff key db db') (agree₁ : AgreeOff key db₁ db₁') (here : rows db₁' key = rows db' key) :
    ∀ key, key.outbound = true → rows db₁' key = rows db' key := by
  intro other outbound
  by_cases own : other = key
  · rw [own, here]
  · rw [agree other own, agree₁ other own, outgoing other outbound]

theorem sameIncoming_of_key (agree : AgreeOff (outboundKey friendNumber id) db db') : SameIncoming db db' := by
  intro key inbound
  apply agree
  rintro rfl
  cases inbound

theorem inserted_alike (outgoing : ∀ key, key.outbound = true → rows db₁ key = rows db key)
    (ran : dbInsertOutboundMessage limit db friendNumber type id tm numParts data receipt = .ok db') :
    ∃ db₁', dbInsertOutboundMessage limit db₁ friendNumber type id tm numParts data receipt = .ok db₁' ∧
      (∀ key, key.outbound = true → rows db₁' key = rows db' key) ∧
      SameIncoming db db' ∧ SameIncoming db₁ db₁' := by
  obtain ⟨absent, fits, _⟩ := insert_ok_iff.mp ran
  obtain ⟨new, agree⟩ := rows_inserted ran
  have ran₁ := (@insert_ok_iff limit db₁ _ friendNumber id tm numParts receipt type data).mpr
    ⟨(outgoing (outboundKey friendNumber id) rfl).trans absent, fits, rfl⟩
  obtain ⟨new₁, agree₁⟩ := rows_inserted ran₁
  exact ⟨_, ran₁, outgoing_of_key outgoing agree agree₁ (new₁.trans new.symm), sameIncoming_of_key agree,
    sameIncoming_of_key agree₁⟩

theorem agreeOff_confirmed (ran : dbOutboundPartConfirmed db friendNumber id partNo tm = .ok db') :
    AgreeOff (outboundKey friendNumber id) db db' := by
  have whole : Statement.counterUpdate ≠ .blobWrite := Statement.noConfusion
  rw [← partConfirmedUntil_whole whole] at ran
  exact partConfirmedUntil_agree ran

theorem confirmed_alike (outgoing : ∀ key, key.outbound = true → rows db₁ key = rows db key)
    (ran : dbOutboundPartConfirmed db friendNumber id partNo tm = .ok db') :
    ∃ db₁', dbOutboundPartConfirmed db₁ friendNumber id partNo tm = .ok db₁' ∧
      (∀ key, key.outbound = true → rows db₁' key = rows db' key) ∧
      SameIncoming db db' ∧ SameIncoming db₁ db₁' := by
  have here := @confirmRows_eq db friendNumber id partNo tm
  have here₁ := @confirmRows_eq db₁ friendNumber id partNo tm
  rw [outgoing (outboundKey friendNumber id) rfl, ← here, ran] at here₁
  cases ran₁ : dbOutboundPartConfirmed db₁ friendNumber id partNo tm with
  | error fault =>
    rw [ran₁] at here₁
    cases here₁
  | ok db₁' =>
    rw [ran₁] at here₁
    have agree := agreeOff_confirmed ran
    have agree₁ := agreeOff_confirmed ran₁
    exact ⟨db₁', rfl, outgoing_of_key outgoing agree agree₁ (Except.ok.inj here₁), sameIncoming_of_key agree,
      sameIncoming_of_key agree₁⟩

/-! ## Calls -/

/-- Over stores that hold the same of outgoing messages the computation does the
same, and it leaves the rows of incoming messages alone. -/
def Outgoing (f : State → Except Fault State) : Prop :=
  ∀ {s t s' : State}, Alike s t → f s = .ok s' → SameIncoming s.db s'.db ∧ ∃ t', f t = .ok t' ∧ Alike s' t'

theorem Storeless.outgoing {f : State → Except Fault State} (storeless : Storeless f) : Outgoing f := by
  intro s t s' alike ran
  obtain ⟨t', ran', alike', _⟩ := storeless.alike alike ran
  refine ⟨fun key _ => ?_, t', ran', alike'⟩
  rw [storeless.kept ran]

theorem acceptMessage_outgoing {message : List UInt8} :
    Outgoing fun s => acceptMessage w s msg m friendNumber type message receipt := by
  intro s t s' alike ran
  obtain ⟨db', inserted, same⟩ := bind_ok.mp ran
  cases same
  obtain ⟨db₁', inserted₁, outgoing, kept, _⟩ := inserted_alike alike.outgoing inserted
  refine ⟨kept, _, bind_ok.mpr ⟨db₁', inserted₁, rfl⟩, ?_, outgoing⟩
  rw [alike.process]
  rfl

theorem msgIsComplete_outgoing : Outgoing fun s => msgIsComplete s msg := by
  intro s t s' alike ran
  obtain ⟨m, found, same⟩ := bind_ok.mp ran
  cases same
  have found₁ : t.msgAt msg = .ok m := by
    rw [alike.process]
    exact found
  refine ⟨fun key inbound => ?_, _, bind_ok.mpr ⟨m, found₁, rfl⟩, ?_, fun key outbound => ?_⟩
  · refine (rows_cleared key).trans (if_neg ?_)
    rintro rfl
    cases inbound
  · rw [alike.process]
    rfl
  · refine (rows_cleared key).trans (Eq.trans ?_ (rows_cleared key).symm)
    rw [alike.outgoing key outbound]

theorem proceed_outgoing : Outgoing fun s => proceed w s msg m := by
  unfold proceed
  split
  · exact serve_storeless.outgoing
  · exact msgIsComplete_outgoing

/-- A change to the process goes along. -/
theorem Alike.change {f : State → State} (alike : Alike s t) (along : ∀ s db, f (onStore s db) = onStore (f s) db)
    (kept : ∀ s, (f s).db = s.db) : Alike (f s) (f t) := by
  refine ⟨?_, fun key outbound => ?_⟩
  · rw [kept t, ← along]
    exact congrArg f alike.process
  · rw [kept t, kept s]
    exact alike.outgoing key outbound

theorem Alike.receipts (alike : Alike s t) : t.receipts = s.receipts := by
  rw [alike.process]
  rfl

theorem Alike.ticks (alike : Alike s t) : t.ticks = s.ticks := by
  rw [alike.process]
  rfl

theorem Alike.base (alike : Alike s t) : t.base = s.base := by
  rw [alike.process]
  rfl

theorem Alike.events (alike : Alike s t) : t.events = s.events := by
  rw [alike.process]
  rfl

theorem tryProcessReceipt_alike {messageId : Nat} {processed : Bool} (alike : Alike s t)
    (ran : tryProcessReceipt w s messageId = .ok (s', processed)) : SameIncoming s.db s'.db ∧
      ∃ t', tryProcessReceipt w t messageId = .ok (t', processed) ∧ Alike s' t' := by
  by_cases known : ∃ j, s.receipts.findReceipt messageId = some j ∧ s.receipts.key j = messageId
  · obtain ⟨j, lookup, held⟩ := known
    rw [tryProcessReceipt_found lookup held] at ran
    obtain ⟨m, found, ran⟩ := bind_ok.mp ran
    obtain ⟨db, confirmed, ran⟩ := bind_ok.mp ran
    obtain ⟨s₁, went, same⟩ := bind_ok.mp ran
    cases same
    obtain ⟨db₁, confirmed₁, outgoing, kept, _⟩ := confirmed_alike alike.outgoing confirmed
    have middle : Alike (confirmedState s j m db) (confirmedState t j m db₁) := by
      refine ⟨?_, outgoing⟩
      rw [alike.process]
      rfl
    obtain ⟨kept₁, t₁, went₁, alike₁⟩ := proceed_outgoing middle went
    refine ⟨fun key inbound => (kept₁ key inbound).trans (kept key inbound), clearedState t₁ j, ?_, ?_⟩
    · rw [tryProcessReceipt_found (by rw [alike.receipts, lookup]) (by rw [alike.receipts, held])]
      rw [alike.receipts, alike.ticks]
      have found₁ : t.msgAt (s.receipts.receipts j).msg = .ok m := by
        rw [alike.process]
        exact found
      exact bind_ok.mpr ⟨m, found₁, bind_ok.mpr ⟨db₁, confirmed₁, bind_ok.mpr ⟨t₁, went₁, rfl⟩⟩⟩
    · exact alike₁.change (f := fun s => clearedState s j) (fun _ _ => rfl) fun _ => rfl
  · have missing : NotFound s.receipts messageId := fun j lookup held => known ⟨j, lookup, held⟩
    cases (tryProcessReceipt_missing missing).symm.trans ran
    exact ⟨fun _ _ => rfl, t, tryProcessReceipt_missing (alike.receipts ▸ missing), alike⟩

theorem friendReadReceiptCb_outgoing {friendNumber messageId : Nat} :
    Outgoing fun s => friendReadReceiptCb w s friendNumber messageId := by
  intro s t s' alike ran
  obtain ⟨⟨s₁, processed⟩, tried, rest⟩ := bind_ok.mp ran
  obtain ⟨kept, t₁, tried₁, alike₁⟩ := tryProcessReceipt_alike alike tried
  cases processed with
  | true =>
    cases rest
    exact ⟨kept, t₁, bind_ok.mpr ⟨_, tried₁, rfl⟩, alike₁⟩
  | false =>
    cases rest
    refine ⟨kept, _, bind_ok.mpr ⟨_, tried₁, rfl⟩, ?_⟩
    exact alike₁.change (f := fun s => { s with events := .passed friendNumber messageId :: s.events })
      (fun _ _ => rfl) fun _ => rfl

/-- The number for the client depends on the process alone. -/
theorem generateReceiptNo_over (s : State) (db : Db) :
    generateReceiptNo w (onStore s db) = (generateReceiptNo w s).map fun r => (r.1, onStore r.2 db) := by
  unfold generateReceiptNo
  change avoidPending w.params s.pending (s.msgsOutbound.length + 1) (nextReceiptNo w.params s.lastReceipt) >>= _ =
    Except.map _ (avoidPending w.params s.pending (s.msgsOutbound.length + 1)
      (nextReceiptNo w.params s.lastReceipt) >>= _)
  cases avoidPending w.params s.pending (s.msgsOutbound.length + 1) (nextReceiptNo w.params s.lastReceipt) <;> rfl

theorem friendSendMessageLong_alike {message : List UInt8} (alike : Alike s t)
    (ran : friendSendMessageLong w s friendNumber type message = .ok (s', receipt)) : SameIncoming s.db s'.db ∧
      ∃ t', friendSendMessageLong w t friendNumber type message = .ok (t', receipt) ∧ Alike s' t' := by
  obtain ⟨db₁, rfl, outgoing⟩ : ∃ db₁, t = onStore s db₁ ∧ ∀ key, key.outbound = true → rows db₁ key = rows s.db key :=
    ⟨t.db, alike.process, alike.outgoing⟩
  obtain ⟨m, split, ran⟩ := bind_ok.mp ran
  obtain ⟨s₁, went, ran⟩ := bind_ok.mp ran
  obtain ⟨m₁, found, ran⟩ := bind_ok.mp ran
  have went : sendFrom w s.fresh m.numParts 0 (begunState w s friendNumber m) = .ok s₁ := went
  have unstored : s₁.db = (begunState w s friendNumber m).db := sendFrom_storeless.kept went
  have unstored : s₁.db = s.db := unstored
  have went₁ : sendFrom w s.fresh m.numParts 0 (onStore (begunState w s friendNumber m) db₁) = .ok (onStore s₁ db₁) := by
    rw [sendFrom_storeless, went]
    rfl
  split at ran
  · rename_i taken
    obtain ⟨⟨r, s₂⟩, numbered, ran⟩ := bind_ok.mp ran
    obtain ⟨s₃, accepted, same⟩ := bind_ok.mp ran
    cases same
    have numbered₁ : generateReceiptNo w (onStore s₁ db₁) = .ok (receipt, onStore s₂ db₁) := by
      rw [generateReceiptNo_over, numbered]
      rfl
    have kept₂ : s₂.db = s.db := by
      obtain ⟨_, _, same⟩ := bind_ok.mp numbered
      cases same
      exact unstored
    obtain ⟨kept, t₃, accepted₁, alike₁⟩ := acceptMessage_outgoing (t := onStore s₂ db₁)
      ⟨rfl, by rw [kept₂]; exact outgoing⟩ accepted
    refine ⟨kept₂ ▸ kept, t₃, bind_ok.mpr ⟨m, split, bind_ok.mpr ⟨_, went₁, bind_ok.mpr ⟨m₁, found, ?_⟩⟩⟩, alike₁⟩
    rw [if_pos taken]
    exact bind_ok.mpr ⟨_, numbered₁, bind_ok.mpr ⟨t₃, accepted₁, rfl⟩⟩
  · rename_i refused
    cases ran
    refine ⟨fun key _ => ?_, _, bind_ok.mpr ⟨m, split, bind_ok.mpr ⟨_, went₁, bind_ok.mpr ⟨m₁, found,
      if_neg refused⟩⟩⟩, rfl, fun key outbound => ?_⟩
    · change rows s₁.db key = _
      rw [unstored]
    · change rows db₁ key = rows s₁.db key
      rw [unstored]
      exact outgoing key outbound

theorem friendSendMessage_alike {message : List UInt8} {beyond : Decimal.Memory} (alike : Alike s t)
    (ran : friendSendMessage w s friendNumber type message beyond = .ok (s', receipt)) :
    SameIncoming s.db s'.db ∧
      ∃ t', friendSendMessage w t friendNumber type message beyond = .ok (t', receipt) ∧ Alike s' t' := by
  unfold friendSendMessage at ran ⊢
  split at ran
  · cases ran
    simp only [*, ↓reduceIte]
    exact ⟨fun _ _ => rfl, t, rfl, alike⟩
  · split at ran
    · cases ran
      simp only [*, Bool.false_eq_true, ↓reduceIte]
      refine ⟨fun _ _ => rfl, _, ?_, alike.change (f := fun s => (toxFriendSendMessage w s ⟨friendNumber, type,
        some message, message.length, none⟩).2) (fun _ _ => rfl) fun _ => rfl⟩
      rw [alike.process]
      rfl
    · simp only [*, Bool.false_eq_true, ↓reduceIte]
      exact friendSendMessageLong_alike alike ran

/-- Whatever the sending half is called for. -/
theorem step_outgoing (op : Op) : Outgoing (step w op) := by
  cases op with
  | send friendNumber type message beyond =>
    intro s t s' alike ran
    obtain ⟨⟨s₁, receipt⟩, sent, same⟩ := bind_ok.mp ran
    cases same
    obtain ⟨kept, t', sent₁, alike₁⟩ := friendSendMessage_alike alike sent
    exact ⟨kept, t', bind_ok.mpr ⟨_, sent₁, rfl⟩, alike₁⟩
  | receipt friendNumber messageId => exact friendReadReceiptCb_outgoing
  | periodic => exact doPeriodic_storeless.outgoing

end Defragmenter.Halves
