import Defragmenter.InboundHistory

/-! Conversations do not interfere. What an incoming fragment does depends on
the rows of its own friend and id alone, and it changes no others. -/
namespace Defragmenter.Isolation
open Decimal Marker Database InboundStore Receiver InboundHistory

/-- The key of the inbound rows a fragment belongs to. -/
def keyOf (m : Incoming) (fields : Fields) : Key := ⟨false, m.friendNumber, fields.id⟩

/-- What is left under the key and what the client is called with, if the call returns. -/
def outcome (key : Key) (result : Except Fault (Db × Option Handed)) : Option (Rows × Option Handed) :=
  result.toOption.map fun r => (rows r.1 key, r.2)

variable {limit : BlobLimit} {db db' : Db} {m : Incoming} {tm : Nat} {fields : Fields} {handed : Option Handed}

/-- The outcome is a function of the rows of the key. -/
theorem outcome_receive (parsed : markerParse m.memory m.message.length = some fields) (db : Db) :
    outcome (keyOf m fields) (friendMessageCb limit db m tm) =
      (receive limit (inFragment m tm fields) (rows db (keyOf m fields))).toOption.map
        fun r => (r.1, r.2.map messageReady) := by
  have agrees := dbInsertInboundFragment_receive limit db (inFragment m tm fields)
  have own : (inFragment m tm fields).key = keyOf m fields := rfl
  rw [own] at agrees
  rw [friendMessageCb_fragment parsed]
  cases step : receive limit (inFragment m tm fields) (rows db (keyOf m fields)) with
  | error fault =>
    rw [step] at agrees
    rw [agrees]
    rfl
  | ok result =>
    rw [step] at agrees
    obtain ⟨db', ran, _, after⟩ := agrees
    rw [ran]
    exact congrArg (fun r => some (r, result.2.map messageReady)) after

/-- A fragment leaves all rows alone but its own. -/
theorem agreeOff_friendMessageCb (parsed : markerParse m.memory m.message.length = some fields)
    (ran : friendMessageCb limit db m tm = .ok (db', handed)) : AgreeOff (keyOf m fields) db db' := by
  rw [friendMessageCb_fragment parsed] at ran
  obtain ⟨⟨db₂, ready⟩, inserted, rest⟩ := bind_ok.mp ran
  cases rest
  exact (receive_of_insert inserted).2

/-- A fragment that is processed changes no rows of another friend or id and no
outgoing ones, and what it does to its own rows and to the client is the same
over every store with these rows. -/
theorem conversations_isolated (parsed : markerParse m.memory m.message.length = some fields)
    (ran : friendMessageCb limit db m tm = .ok (db', handed)) :
    (∀ key, key.outbound = true ∨ key.friendId ≠ m.friendNumber ∨ key.fragsId ≠ fields.id →
      rows db' key = rows db key) ∧
    ∀ db₁, rows db₁ (keyOf m fields) = rows db (keyOf m fields) →
      outcome (keyOf m fields) (friendMessageCb limit db₁ m tm) =
        some (rows db' (keyOf m fields), handed) := by
  constructor
  · intro key different
    have other : key ≠ keyOf m fields := by
      rintro rfl
      rcases different with outbound | friend | id
      · cases outbound
      · exact friend rfl
      · exact id rfl
    exact agreeOff_friendMessageCb parsed ran key other
  · intro db₁ same
    rw [outcome_receive parsed, same, ← outcome_receive parsed, ran]
    rfl

/-- The first fragment of a letter, over an empty store. -/
theorem conversations_isolated_first : ∃ fields db',
    friendMessageCb defaultLimit {} (packet (uniformLetter 1) 0 0) 5 = .ok (db', none) ∧
    (∀ key, key.outbound = true ∨ key.friendId ≠ 7 ∨ key.fragsId ≠ fields.id → rows db' key = {}) ∧
    ∀ db₁, rows db₁ (keyOf (packet (uniformLetter 1) 0 0) fields) = {} →
      outcome (keyOf (packet (uniformLetter 1) 0 0) fields)
        (friendMessageCb defaultLimit db₁ (packet (uniformLetter 1) 0 0) 5) =
          some (rows db' (keyOf (packet (uniformLetter 1) 0 0) fields), none) := by
  have inside : 0 < (uniformLetter 1).parts := by decide +kernel
  have step : receive defaultLimit ((uniformLetter 1).inbound 0 0 5) {} =
      .ok (⟨some ⟨0, 5, 5, 1, 2⟩, some { message := (uniformLetter 1).stored {0} }⟩, none) := by
    decide +kernel
  obtain ⟨fields, parsed, -⟩ := inFragment_carried (carries_packet inside 0)
  obtain ⟨db', inserted, -, -⟩ :=
    @insert_of_receive defaultLimit {} ((uniformLetter 1).inbound 0 0 5) none _ step
  have ran : friendMessageCb defaultLimit {} (packet (uniformLetter 1) 0 0) 5 = .ok (db', none) := by
    rw [friendMessageCb_carried (carries_packet inside 0)]
    exact bind_ok.mpr ⟨_, inserted, rfl⟩
  exact ⟨fields, db', ran, conversations_isolated parsed ran⟩

end Defragmenter.Isolation
