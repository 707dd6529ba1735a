import Defragmenter.Conversations
import Defragmenter.Halves
import Defragmenter.Reentry
import Defragmenter.Completion

/-! A process that sends and receives over one store, with a client that may
answer when it is handed a message. The sending half is a run of the sender,
the receiving half one of the receiver, as if each had a store of its own; so
their calls may change places. -/
namespace Defragmenter.Duplex
open Decimal Marker Database InboundStore OutboundStore Split Receiver Sender Receipts InboundHistory Isolation
open Reentry (ClientSend clientSend insert_eq)
open Runs Provenance Completion Unwinding Conversations Halves

/-- What comes to the process: a call for its sending half, or a message from
the base library with the answers of the client, should it be handed one. -/
inductive Input where
  | own (op : Op)
  | incoming (c : Call) (answers : List ClientSend)

variable (w : World)

/-- `friend_message_cb`, the client answering where it is called back: for a
fragment that is between the count and the deletion of the data row. -/
def receiveAnswering (c : Call) (answers : List ClientSend) (s : State) :
    Except Fault (State × Option Handed) :=
  match markerParse c.incoming.memory c.incoming.message.length with
  | none => do
    let s ← answers.foldlM (clientSend w) s
    pure (s, some ⟨c.incoming.friendNumber, c.incoming.type, c.incoming.message⟩)
  | some fields => do
    let f := inFragment c.incoming c.tm fields
    let (db, ready) ← insertUntil w.limit .readyCallback s.db f
    match ready with
    | none => pure (onStore s db, none)
    | some given =>
      let s ← answers.foldlM (clientSend w) (onStore s db)
      pure (onStore s (dbUnlock (deleteDataRecord s.db false f.friendNumber f.id)), some (messageReady given))

def processStep : Input → State → Except Fault (State × Option Handed)
  | .own op, s => (step w op s).map fun s => (s, none)
  | .incoming c answers, s => receiveAnswering w c answers s

/-- The call as one of the sending half. -/
def opOf (c : ClientSend) : Op := .send c.friendNumber c.type c.message c.beyond

/-- What the sending half is called for in one step of the process. -/
def opsOf : Input × Option Handed → List Op
  | (.own op, _) => [op]
  | (.incoming _ answers, handed) => if handed.isSome then answers.map opOf else []

def callOf : Input × Option Handed → Option (Call × Option Handed)
  | (.own _, _) => none
  | (.incoming c _, handed) => some (c, handed)

def callsOf (inputs : List Input) : List Call :=
  inputs.filterMap fun i => match i with
    | .own _ => none
    | .incoming c _ => some c

variable {w : World} {s s' t t' : State} {db db' : Db} {c : Call} {answers : List ClientSend} {handed : Option Handed}
  {inputs : List Input} {log : List (Input × Option Handed)} {ops : List Op}

/-! ## The sending half -/

/-- A run of the sending half goes as well from a state that is alike. -/
theorem run_alike (alike : Alike s t) (run : Run (step w) (fun _ _ => True) (· = s) ops s') :
    ∃ t', Run (step w) (fun _ _ => True) (· = t) ops t' ∧ Alike s' t' := by
  induction run with
  | nil same => exact ⟨t, .nil (by rfl), same ▸ alike⟩
  | cons _ _ stepped ih =>
    obtain ⟨t₁, run₁, alike₁⟩ := ih
    obtain ⟨_, t', stepped₁, alike'⟩ := step_outgoing _ alike₁ stepped
    exact ⟨t', .cons run₁ trivial stepped₁, alike'⟩

/-- The answers are sends one after another. -/
theorem run_answers : ∀ {s s' : State}, answers.foldlM (clientSend w) s = .ok s' →
    Run (step w) (fun _ _ => True) (· = s) (answers.map opOf).reverse s' := by
  induction answers with
  | nil =>
    intro s s' ran
    cases ran
    exact .nil (by rfl)
  | cons c rest ih =>
    intro s s' ran
    rw [List.foldlM_cons] at ran
    obtain ⟨s₁, sent, ran⟩ := bind_ok.mp ran
    rw [List.map_cons, List.reverse_cons]
    exact (Run.cons (.nil (by rfl)) trivial sent).append (ih ran)

/-! ## The receiving half -/

/-- A message changes rows of incoming messages only. -/
theorem alike_received (ran : receiveCall w.limit c s.db = .ok (db', handed)) : Alike s (onStore s db') := by
  refine ⟨rfl, fun key outbound => ?_⟩
  change rows db' key = rows s.db key
  cases parsed : markerParse c.incoming.memory c.incoming.message.length with
  | none =>
    cases (friendMessageCb_other parsed).symm.trans ran
    rfl
  | some fields =>
    apply agreeOff_friendMessageCb parsed ran
    rintro rfl
    cases outbound

theorem answers_outgoing : Outgoing fun s => answers.foldlM (clientSend w) s := by
  induction answers with
  | nil =>
    intro s t s' alike ran
    cases ran
    exact ⟨fun _ _ => rfl, t, rfl, alike⟩
  | cons c rest ih =>
    intro s t s' alike ran
    simp only [List.foldlM_cons] at ran ⊢
    obtain ⟨s₁, sent, ran⟩ := bind_ok.mp ran
    obtain ⟨kept, t₁, sent₁, alike₁⟩ := step_outgoing (opOf c) alike sent
    obtain ⟨kept', t', ran', alike'⟩ := ih alike₁ ran
    exact ⟨fun key inbound => (kept' key inbound).trans (kept key inbound), t',
      bind_ok.mpr ⟨t₁, sent₁, ran'⟩, alike'⟩

theorem rows_deleted (db : Db) (friendNumber id : Nat) (key : Key) :
    rows (dbUnlock (deleteDataRecord db false friendNumber id)) key =
      if key = ⟨false, friendNumber, id⟩ then ⟨(rows db key).metaRow, none⟩ else rows db key := by
  have unlocked : rows (dbUnlock (deleteDataRecord db false friendNumber id)) key =
      rows (deleteDataRecord db false friendNumber id) key := rfl
  rw [unlocked]
  by_cases own : key = ⟨false, friendNumber, id⟩
  · rw [if_pos own, own]
    exact rows_delete ⟨false, friendNumber, id⟩
  · rw [if_neg own]
    exact agreeOff_delete ⟨false, friendNumber, id⟩ key own

/-- Over stores that hold the same of incoming messages a message does the same. -/
theorem receiveCall_incoming {limit : BlobLimit} {db db₁ : Db} (same : SameIncoming db db₁)
    (ran : receiveCall limit c db = .ok (db', handed)) :
    ∃ db₁', receiveCall limit c db₁ = .ok (db₁', handed) ∧ SameIncoming db' db₁' := by
  have here : rowsOf (conversation c) db₁ = rowsOf (conversation c) db := by
    rw [conversation]
    cases markerParse c.incoming.memory c.incoming.message.length with
    | none => rfl
    | some fields => exact same (keyOf c.incoming fields) rfl
  obtain ⟨db₁', ran₁, after⟩ := (confined limit).own ran here
  refine ⟨db₁', ran₁, fun key inbound => ?_⟩
  by_cases own : some key = conversation c
  · rw [← own] at after
    exact after
  · have kept : rows db' key = rows db key := (confined limit).others (some key) ran own
    have kept₁ : rows db₁' key = rows db₁ key := (confined limit).others (some key) ran₁ own
    rw [kept, kept₁, same key inbound]

theorem receiveAll_incoming {limit : BlobLimit} {calls : List Call} :
    ∀ {db db₁ : Db} {log}, SameIncoming db db₁ → receiveAll limit calls db = .ok (db', log) →
      ∃ db₁', receiveAll limit calls db₁ = .ok (db₁', log) ∧ SameIncoming db' db₁' := by
  induction calls with
  | nil =>
    intro db db₁ log same ran
    cases ran
    exact ⟨db₁, rfl, same⟩
  | cons c rest ih =>
    intro db db₁ log same ran
    obtain ⟨db₂, handed, later, stepped, went, rfl⟩ := transduce_cons.mp ran
    obtain ⟨db₃, stepped₁, same₁⟩ := receiveCall_incoming same stepped
    obtain ⟨db₁', went₁, same'⟩ := ih same₁ went
    exact ⟨db₁', transduce_cons.mpr ⟨db₃, handed, later, stepped₁, went₁, rfl⟩, same'⟩

/-- What the client answers when it is handed a message might as well be sent
right after. -/
theorem answered_after (ran : receiveAnswering w c answers s = .ok (s', handed)) :
    ∃ db₁, receiveCall w.limit c s.db = .ok (db₁, handed) ∧
      ∃ t', (if handed.isSome then answers else []).foldlM (clientSend w) (onStore s db₁) = .ok t' ∧
        Alike t' s' ∧ SameIncoming t'.db s'.db := by
  unfold receiveAnswering at ran
  cases parsed : markerParse c.incoming.memory c.incoming.message.length with
  | none =>
    simp only [parsed] at ran
    obtain ⟨s₁, went, same⟩ := bind_ok.mp ran
    cases same
    exact ⟨s.db, friendMessageCb_other parsed, s', went, .refl s', fun _ _ => rfl⟩
  | some fields =>
    simp only [parsed] at ran
    obtain ⟨⟨db, ready⟩, inserted, ran⟩ := bind_ok.mp ran
    cases ready with
    | none =>
      cases ran
      refine ⟨db, ?_, _, rfl, .refl _, fun _ _ => rfl⟩
      rw [receiveCall, friendMessageCb_fragment parsed, insert_eq, inserted]
      rfl
    | some given =>
      obtain ⟨s₁, went, same⟩ := bind_ok.mp ran
      cases same
      -- the row of the message is deleted before the answers, and not after them
      have before : Alike (onStore s db) (onStore s (dbUnlock (deleteDataRecord db false c.incoming.friendNumber fields.id))) := by
        refine ⟨rfl, fun key outbound => (rows_deleted db _ _ key).trans (if_neg ?_)⟩
        rintro rfl
        cases outbound
      obtain ⟨kept, t', went', alike'⟩ := answers_outgoing before went
      have kept' := (answers_outgoing (.refl _) went').1
      refine ⟨_, ?_, t', went', alike'.symm.trans ⟨rfl, fun key outbound => ?_⟩, fun key inbound => ?_⟩
      · rw [receiveCall, friendMessageCb_fragment parsed, insert_eq, inserted]
        rfl
      · refine (rows_deleted s₁.db _ _ key).trans (if_neg ?_)
        rintro rfl
        cases outbound
      · refine (rows_deleted s₁.db _ _ key).trans (Eq.trans ?_ (kept' key inbound).symm)
        refine Eq.trans ?_ (rows_deleted db _ _ key).symm
        rw [kept key inbound]
        rfl

/-! ## Both -/

/-- Whatever comes to the process and whatever the client answers when it is
handed a message: its sending half is a run of the sender, called for the
client's messages, the answers right behind what they answer, the receipts and
the periodic passes; its receiving half is a run of the receiver, which hands
onStore the same; and the store holds the rows of both. -/
theorem halves_apart (ran : transduce (processStep w) inputs s = .ok (s', log)) :
    ∃ t db', Run (step w) (fun _ _ => True) (· = s) (log.flatMap opsOf).reverse t ∧
      receiveAll w.limit (callsOf inputs) s.db = .ok (db', log.filterMap callOf) ∧
      Alike t s' ∧ SameIncoming db' s'.db := by
  induction inputs generalizing s log with
  | nil =>
    cases ran
    exact ⟨s', s'.db, .nil rfl, rfl, .refl s', fun _ _ => rfl⟩
  | cons i rest ih =>
    obtain ⟨s₁, handed, later, stepped, went, rfl⟩ := transduce_cons.mp ran
    obtain ⟨t, db', run, received, alike, same⟩ := ih went
    cases i with
    | own op =>
      obtain ⟨s₂, called, result⟩ := map_ok.mp stepped
      cases result
      have kept := (step_outgoing op (.refl s) called).1
      obtain ⟨db'', received', same'⟩ := receiveAll_incoming (fun key inbound => (kept key inbound).symm) received
      refine ⟨t, db'', ?_, received', alike, fun key inbound => (same key inbound).trans (same' key inbound).symm⟩
      have first : Run (step w) (fun _ _ => True) (· = s) [op] s₁ := .cons (.nil rfl) trivial called
      rw [List.flatMap_cons, List.reverse_append]
      exact first.append run
    | incoming c answers =>
      obtain ⟨db₁, received₁, t₁, answered, alike₁, same₁⟩ := answered_after stepped
      -- the sending half: the answers, then the rest, from a state that is alike
      obtain ⟨_, t₂, answered', alike₂⟩ := answers_outgoing (alike_received received₁).symm answered
      obtain ⟨t₃, run₃, alike₃⟩ := run_alike (alike₁.symm.trans alike₂) run
      -- the receiving half: the message, then the rest, with the same rows
      have kept := (answers_outgoing (.refl _) answered).1
      have between : SameIncoming s₁.db db₁ := fun key inbound =>
        ((same₁ key inbound).trans (kept key inbound)).symm
      obtain ⟨db'', received', same'⟩ := receiveAll_incoming between received
      refine ⟨t₃, db'', ?_, transduce_cons.mpr ⟨db₁, handed, _, received₁, received', rfl⟩,
        alike₃.symm.trans alike, fun key inbound => (same key inbound).trans (same' key inbound).symm⟩
      rw [List.flatMap_cons, List.reverse_append]
      refine Run.append ?_ run₃
      have sends := run_answers answered'
      cases handed with
      | none => exact sends
      | some h => exact sends

/-- A message that is answered, and a long message. -/
def answeredText : List Input :=
  [.incoming text [⟨7, 0, [111, 107], fun _ => 0⟩], .own (.send 1 0 (List.replicate 65 1) fun _ => 0)]

theorem halves_apart_of_answered_text : ∃ s' log t db',
    transduce (processStep behindRange) answeredText (initialState behindRange) = .ok (s', log) ∧
    log.map Prod.snd = [some ⟨7, 0, [104, 105]⟩, none] ∧ s'.base.length = 3 ∧
    Run (step behindRange) (fun _ _ => True) (· = initialState behindRange) (log.flatMap opsOf).reverse t ∧
    receiveAll behindRange.limit [text] {} = .ok (db', log.filterMap callOf) ∧ Alike t s' := by
  have checked : (transduce (processStep behindRange) answeredText (initialState behindRange)).toOption.any
      (fun r => r.2.map Prod.snd = [some ⟨7, 0, [104, 105]⟩, none] ∧ r.1.base.length = 3) = true := by
    decide +kernel
  cases ran : transduce (processStep behindRange) answeredText (initialState behindRange) with
  | error fault =>
    rw [ran] at checked
    cases checked
  | ok result =>
    obtain ⟨s', log⟩ := result
    rw [ran] at checked
    obtain ⟨handed, calls⟩ := of_decide_eq_true checked
    obtain ⟨t, db', run, received, alike, _⟩ := halves_apart ran
    exact ⟨s', log, t, db', rfl, handed, calls, run, received, alike⟩

/-! ## Changing places -/

/-- The process with a client that answers after it was handed a message. -/
def duplexStep (w : World) : Op ⊕ Call → State → Except Fault (State × Option Handed)
  | .inl op, s => (step w op s).map fun s => (s, none)
  | .inr c, s => (receiveCall w.limit c s.db).map fun r => (onStore s r.1, r.2)

/-- The sending half, or a conversation of the receiving half. -/
def half : Op ⊕ Call → Option (Option Key)
  | .inl _ => none
  | .inr c => some (conversation c)

/-- What is of the sending half, and what of a conversation. -/
def halfOf : Option (Option Key) → State → (State × (Key → Rows)) ⊕ Rows
  | none, s => .inl (onStore s {}, fun key => if key.outbound then rows s.db key else {})
  | some key, s => .inr (key.elim {} fun key => if key.outbound then {} else rows s.db key)

theorem halfOf_sending : halfOf none t = halfOf none s ↔ Alike s t := by
  constructor
  · intro same
    obtain ⟨process, outgoing⟩ := Prod.mk.inj (Sum.inl.inj same)
    refine ⟨?_, fun key outbound => ?_⟩
    · have process : onStore (onStore t {}) t.db = onStore (onStore s {}) t.db := congrArg (onStore · t.db) process
      exact process
    · simpa [outbound] using congrFun outgoing key
  · intro alike
    refine congrArg Sum.inl (Prod.ext ?_ (funext fun key => ?_))
    · have process : onStore t {} = onStore (onStore s t.db) {} := congrArg (onStore · {}) alike.process
      exact process
    · dsimp only
      split
      · rename_i outbound
        exact alike.outgoing key outbound
      · rfl

theorem halfOf_receiving (same : SameIncoming s.db t.db) (key : Option Key) :
    halfOf (some key) t = halfOf (some key) s := by
  cases key with
  | none => rfl
  | some key =>
    cases outbound : key.outbound with
    | false => simpa [halfOf, outbound] using same key outbound
    | true => simp [halfOf, outbound]

theorem halfOf_conversation : halfOf (some (conversation c)) s = .inr (rowsOf (conversation c) s.db) := by
  rw [conversation]
  cases markerParse c.incoming.memory c.incoming.message.length <;> rfl

/-- Each half, and in the receiving one each conversation, is a part of its own. -/
theorem confined_duplex (w : World) : Confined (duplexStep w) half halfOf where
  others {i s s' handed} d ran different := by
    cases i with
    | inl op =>
      obtain ⟨s₁, called, result⟩ := map_ok.mp ran
      cases result
      cases d with
      | none => exact absurd rfl different
      | some key => exact halfOf_receiving (step_outgoing op (.refl s) called).1 key
    | inr c =>
      obtain ⟨⟨db', handed'⟩, received, result⟩ := map_ok.mp ran
      cases result
      cases d with
      | none => exact halfOf_sending.mpr (alike_received received)
      | some key =>
        cases key with
        | none => rfl
        | some key =>
          have kept : rows db' key = rows s.db key :=
            (confined w.limit).others (some key) received fun own => different (congrArg some own)
          simp [halfOf, onStore, kept]
  own {i s s' t handed} ran same := by
    cases i with
    | inl op =>
      obtain ⟨s₁, called, result⟩ := map_ok.mp ran
      cases result
      obtain ⟨_, t', called', alike⟩ := step_outgoing op (halfOf_sending.mp same) called
      exact ⟨t', map_ok.mpr ⟨t', called', rfl⟩, halfOf_sending.mpr alike⟩
    | inr c =>
      obtain ⟨⟨db', handed'⟩, received, result⟩ := map_ok.mp ran
      cases result
      change halfOf (some (conversation c)) t = halfOf (some (conversation c)) s at same
      rw [halfOf_conversation, halfOf_conversation] at same
      obtain ⟨db₁', received', after⟩ := (confined w.limit).own received (Sum.inr.inj same)
      refine ⟨onStore t db₁', map_ok.mpr ⟨_, received', rfl⟩, ?_⟩
      change halfOf (some (conversation c)) _ = halfOf (some (conversation c)) _
      rw [halfOf_conversation, halfOf_conversation]
      exact congrArg Sum.inr after

variable {moved : List (Op ⊕ Call)} {inputs₁ : List (Op ⊕ Call)} {log₁ : List ((Op ⊕ Call) × Option Handed)}

/-- As long as the calls of the sending half stay in their order, and the
fragments of every conversation in theirs, they can come between each other in
any way: the process ends up alike, with the same rows, and hands over the same. -/
theorem halves_reordered (same : ∀ d, only half d moved = only half d inputs₁)
    (ran : transduce (duplexStep w) inputs₁ s = .ok (s', log₁)) : ∃ t' log',
      transduce (duplexStep w) moved s = .ok (t', log') ∧ Alike s' t' ∧ SameIncoming s'.db t'.db ∧
        ∀ d, Unwinding.answers half d log' = Unwinding.answers half d log₁ := by
  obtain ⟨t', log', ran', agree⟩ := (confined_duplex w).reordered same ran
  refine ⟨t', log', ran', halfOf_sending.mp (agree none).1, fun key inbound => ?_, fun d => (agree d).2⟩
  have here := (agree (some (some key))).1
  simpa [halfOf, inbound] using here

/-- A text that comes before a long message is sent might come behind it. -/
theorem halves_reordered_of_text : ∃ s' log t' log',
    transduce (duplexStep behindRange) [.inr text, .inl (.send 1 0 (List.replicate 65 1) fun _ => 0)]
      (initialState behindRange) = .ok (s', log) ∧ s'.base.length = 2 ∧
    transduce (duplexStep behindRange) [.inl (.send 1 0 (List.replicate 65 1) fun _ => 0), .inr text]
      (initialState behindRange) = .ok (t', log') ∧ Alike s' t' := by
  have checked : (transduce (duplexStep behindRange) [.inr text, .inl (.send 1 0 (List.replicate 65 1) fun _ => 0)]
      (initialState behindRange)).toOption.any (fun r => r.1.base.length = 2) = true := by
    decide +kernel
  cases ran : transduce (duplexStep behindRange) [.inr text, .inl (.send 1 0 (List.replicate 65 1) fun _ => 0)]
      (initialState behindRange) with
  | error fault =>
    rw [ran] at checked
    cases checked
  | ok result =>
    obtain ⟨s', log⟩ := result
    rw [ran] at checked
    have same : ∀ d, only half d [.inl (.send 1 0 (List.replicate 65 1) fun _ => 0), .inr text] =
        only half d [.inr text, .inl (.send 1 0 (List.replicate 65 1) fun _ => 0)] := by
      intro d
      cases d <;> simp [only, half, List.filter_cons]
    obtain ⟨t', log', ran', alike, _⟩ := halves_reordered same ran
    exact ⟨s', log, t', log', rfl, of_decide_eq_true checked, ran', alike⟩

end Defragmenter.Duplex
