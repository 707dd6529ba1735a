import Defragmenter.Isolation
import Defragmenter.Reassembly
import Defragmenter.Unwinding

/-! Conversations over whole runs of the receiver. What has come of a key does
not depend on what else came in, and fragments of different keys may change
places. -/
namespace Defragmenter.Conversations
open Decimal Marker Database InboundStore Receiver InboundHistory Isolation Reassembly Unwinding

/-- A call of `friend_message_cb`, and what the clock shows then. -/
structure Call where
  incoming : Incoming
  tm : Nat

def receiveCall (limit : BlobLimit) (c : Call) (db : Db) : Except Fault (Db × Option Handed) :=
  friendMessageCb limit db c.incoming c.tm

/-- The key of the rows a message is for. A message that is no fragment is for none. -/
def conversation (c : Call) : Option Key :=
  (markerParse c.incoming.memory c.incoming.message.length).map (keyOf c.incoming)

def rowsOf (key : Option Key) (db : Db) : Rows := key.elim {} (rows db)

/-- The calls one after another, each with what the client was handed in it. -/
def receiveAll (limit : BlobLimit) (calls : List Call) (db : Db) :
    Except Fault (Db × List (Call × Option Handed)) :=
  transduce (receiveCall limit) calls db

variable {limit : BlobLimit} {calls calls' : List Call} {c : Call} {db db' db₁ : Db}
  {log : List (Call × Option Handed)} {key : Key}

/-- A fragment is handled alike over every store with the rows of its key. -/
theorem receiveCall_own {fields : Fields} {handed : Option Handed}
    (parsed : markerParse c.incoming.memory c.incoming.message.length = some fields)
    (ran : receiveCall limit c db = .ok (db', handed))
    (same : rows db₁ (keyOf c.incoming fields) = rows db (keyOf c.incoming fields)) :
    ∃ db₁', receiveCall limit c db₁ = .ok (db₁', handed) ∧
      rows db₁' (keyOf c.incoming fields) = rows db' (keyOf c.incoming fields) := by
  have outcomes : outcome (keyOf c.incoming fields) (receiveCall limit c db₁) =
      some (rows db' (keyOf c.incoming fields), handed) := by
    rw [receiveCall, outcome_receive parsed, same, ← outcome_receive parsed]
    rw [receiveCall] at ran
    rw [ran]
    rfl
  obtain ⟨⟨db₁', handed'⟩, member, shown⟩ := Option.map_eq_some_iff.mp outcomes
  obtain ⟨after, rfl⟩ := Prod.mk.inj shown
  exact ⟨db₁', mem_toOption.mp member, after⟩

/-- Every call works on the rows of its conversation alone. -/
theorem confined (limit : BlobLimit) : Confined (receiveCall limit) conversation rowsOf where
  others {c db db' handed} key ran different := by
    rw [conversation] at different
    cases parsed : markerParse c.incoming.memory c.incoming.message.length with
    | none =>
      cases (friendMessageCb_other parsed).symm.trans ran
      rfl
    | some fields =>
      cases key with
      | none => rfl
      | some key =>
        apply agreeOff_friendMessageCb parsed ran
        rintro rfl
        exact different (by rw [parsed]; rfl)
  own {c db db' db₁ handed} ran same := by
    rw [conversation] at same ⊢
    cases parsed : markerParse c.incoming.memory c.incoming.message.length with
    | none =>
      cases (friendMessageCb_other parsed).symm.trans ran
      exact ⟨db₁, friendMessageCb_other parsed, rfl⟩
    | some fields =>
      rw [parsed] at same
      exact receiveCall_own parsed ran same

/-- In every run of the receiver, over any store and with messages of any
contents, the rows of a key and what the client was handed with its fragments
are what these fragments do alone, over any store that began with the same rows
of the key. -/
theorem conversation_alone (ran : receiveAll limit calls db = .ok (db', log))
    (same : rows db₁ key = rows db key) : ∃ db₁',
      receiveAll limit (only conversation (some key) calls) db₁ =
        .ok (db₁', answers conversation (some key) log) ∧ rows db₁' key = rows db' key :=
  (confined limit).alone (d := some key) same ran

/-- Two letters to the same reader: a text, and the first part of two. -/
def text : Call := ⟨⟨7, 0, [104, 105], fun _ => 0⟩, 5⟩
def firstPart : Call := ⟨packet (uniformLetter 1) 0 0, 6⟩

theorem text_plain : markerParse text.incoming.memory text.incoming.message.length = none := by
  decide +kernel

theorem conversation_text : conversation text = none := by
  rw [conversation, text_plain]
  rfl

theorem conversation_firstPart : conversation firstPart = some (uniformLetter 1).key := by
  have inside : 0 < (uniformLetter 1).parts := by decide +kernel
  obtain ⟨fields, parsed, arguments⟩ := inFragment_carried (carries_packet inside 0)
  have id : fields.id = (uniformLetter 1).id := congrArg InboundFragment.id (arguments 0)
  have parsed : markerParse firstPart.incoming.memory firstPart.incoming.message.length = some fields := parsed
  rw [conversation, parsed, Option.map_some, keyOf, id]
  rfl

/-- The text and the part go through, and leave the part's rows. -/
theorem receiveAll_text_firstPart : ∃ db', receiveAll defaultLimit [text, firstPart] {} =
      .ok (db', [(text, some ⟨7, 0, [104, 105]⟩), (firstPart, none)]) ∧
    rows db' (uniformLetter 1).key =
      ⟨some ⟨0, 6, 6, 1, 2⟩, some { message := (uniformLetter 1).stored {0} }⟩ := by
  have inside : 0 < (uniformLetter 1).parts := by decide +kernel
  have step : receive defaultLimit ((uniformLetter 1).inbound 0 0 6) {} =
      .ok (⟨some ⟨0, 6, 6, 1, 2⟩, some { message := (uniformLetter 1).stored {0} }⟩, none) := by
    decide +kernel
  obtain ⟨db', inserted, _, after⟩ :=
    @insert_of_receive defaultLimit {} ((uniformLetter 1).inbound 0 0 6) none _ step
  have ran : receiveCall defaultLimit firstPart {} = .ok (db', none) := by
    rw [receiveCall, firstPart, friendMessageCb_carried (carries_packet inside 0)]
    exact bind_ok.mpr ⟨_, inserted, rfl⟩
  refine ⟨db', ?_, after⟩
  apply transduce_cons.mpr
  refine ⟨{}, _, _, friendMessageCb_other text_plain, ?_, rfl⟩
  exact transduce_cons.mpr ⟨db', _, _, ran, rfl, rfl⟩

/-- The part leaves the same rows without the text. -/
theorem conversation_alone_firstPart : ∃ db₁', receiveAll defaultLimit [firstPart] {} =
      .ok (db₁', [(firstPart, none)]) ∧
    rows db₁' (uniformLetter 1).key =
      ⟨some ⟨0, 6, 6, 1, 2⟩, some { message := (uniformLetter 1).stored {0} }⟩ := by
  obtain ⟨db', ran, after⟩ := receiveAll_text_firstPart
  obtain ⟨db₁', alone, same⟩ := @conversation_alone _ _ {} _ {} _ (uniformLetter 1).key ran rfl
  refine ⟨db₁', ?_, same.trans after⟩
  simpa [only, answers, conversation_text, conversation_firstPart] using alone

/-- Messages that come in another order, but in the same one within every
conversation, go through if they did before, leave the same rows under every
key, and hand over the same with the messages of every conversation. -/
theorem conversations_interleave (same : ∀ key, only conversation key calls' = only conversation key calls)
    (ran : receiveAll limit calls db = .ok (db', log)) : ∃ db₁ log',
      receiveAll limit calls' db = .ok (db₁, log') ∧ (∀ key, rows db₁ key = rows db' key) ∧
        ∀ key, answers conversation key log' = answers conversation key log := by
  obtain ⟨db₁, log', ran', agree⟩ := (confined limit).reordered same ran
  exact ⟨db₁, log', ran', fun key => (agree (some key)).1, fun key => (agree key).2⟩

/-- The part before the text leaves the same rows. -/
theorem conversations_interleave_firstPart : ∃ db₁ log',
    receiveAll defaultLimit [firstPart, text] {} = .ok (db₁, log') ∧
      rows db₁ (uniformLetter 1).key =
        ⟨some ⟨0, 6, 6, 1, 2⟩, some { message := (uniformLetter 1).stored {0} }⟩ := by
  obtain ⟨db', ran, after⟩ := receiveAll_text_firstPart
  have same : ∀ key, only conversation key [firstPart, text] = only conversation key [text, firstPart] := by
    intro key
    cases key <;> simp [only, List.filter_cons, conversation_text, conversation_firstPart]
  obtain ⟨db₁, log', ran', rows_eq, _⟩ := conversations_interleave same ran
  exact ⟨db₁, log', ran', (rows_eq _).trans after⟩

end Defragmenter.Conversations
