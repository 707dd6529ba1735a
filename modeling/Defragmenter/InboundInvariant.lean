import Defragmenter.InboundHistory

/-! What two rows of a key can look like, whoever sends. The number of parts is
the first fragment's word, and later fragments' own numbers are never looked at:
a message is finished when the count comes to that number, and at no other time,
so a number the count starts on or behind is never come to. -/
namespace Defragmenter.InboundInvariant
open Database InboundStore InboundHistory Receiver Marker

/-- Incoming messages of any contents, with what the client was handed for
fragments and under which key, and anything the sending half does to its own rows. -/
inductive Handling (limit : BlobLimit) : List (Key × Handed) → Db → Prop where
  | fresh : Handling limit [] {}
  | fragment {log : List (Key × Handed)} {db db' : Db} {m : Incoming} {tm : Nat} {fields : Fields}
      {handed : Option Handed} : Handling limit log db →
      markerParse m.memory m.message.length = some fields →
      processInFragment limit db m tm = .ok (db', handed) →
      Handling limit (handed.toList.map ((inFragment m tm fields).key, ·) ++ log) db'
  | sending {log : List (Key × Handed)} {db db' : Db} : Handling limit log db →
      (∀ key, key.outbound = false → rows db' key = rows db key) → Handling limit log db'

/-- What the client was handed for the key. -/
def handedFor (key : Key) (log : List (Key × Handed)) : List Handed :=
  (log.filter (·.1 = key)).map (·.2)

/-- The rows of a key and the number of messages handed over for it: nothing
yet, a message on its way to its number of parts, or one that came to it. -/
inductive Consistent : Rows → Nat → Prop where
  | unknown : Consistent {} 0
  | growing {m : MetaRow} {d : DataRow} : 0 ≤ m.fragsDone →
      m.fragsDone < m.fragsNum ∨ m.fragsNum ≤ 0 → Consistent ⟨some m, some d⟩ 0
  | finished {m : MetaRow} : m.fragsDone = m.fragsNum → Consistent ⟨some m, none⟩ 1

variable {limit : BlobLimit} {log : List (Key × Handed)} {db : Db} {f : InboundFragment}
  {r r' : Rows} {ready : Option MsgReady} {handed : Nat}

/-- A fragment for a message that has not come to its number of parts. -/
theorem deposit_consistent {m : MetaRow} {d : DataRow} (counting : 0 ≤ m.fragsDone)
    (short : m.fragsDone < m.fragsNum ∨ m.fragsNum ≤ 0) (step : deposit f m d = .ok (r', ready)) :
    Consistent r' ready.toList.length := by
  rcases deposit_cases step with ⟨_, _, _, rfl, rfl⟩ |
    ⟨_, _, ⟨complete, rfl, rfl⟩ | ⟨incomplete, rfl, rfl⟩⟩
  · exact .growing counting short
  · exact .finished complete
  · have done : (counted f m).fragsDone = m.fragsDone + 1 := counted_fragsDone f m
    have num : (counted f m).fragsNum = m.fragsNum := counted_fragsNum f m
    refine .growing ?_ ?_ <;> omega

/-- A message is begun with the number of parts its first fragment names. -/
theorem newMeta_short (f : InboundFragment) :
    0 ≤ (newMeta f).fragsDone ∧
      ((newMeta f).fragsDone < (newMeta f).fragsNum ∨ (newMeta f).fragsNum ≤ 0) := by
  have begun : (newMeta f).fragsDone = 0 := rfl
  omega

theorem receive_consistent (consistent : Consistent r handed)
    (step : receive limit f r = .ok (r', ready)) :
    Consistent r' (ready.toList.length + handed) := by
  rcases receive_cases step with ⟨known, finished, rfl, rfl⟩ | ⟨m, d, before, filled⟩
  · simpa using consistent
  · rcases before with rfl | ⟨rfl, _, rfl, rfl⟩
    · cases consistent with
      | growing counting short => exact deposit_consistent counting short filled
    · cases consistent with
      | unknown =>
        obtain ⟨counting, short⟩ := newMeta_short f
        exact deposit_consistent counting short filled

theorem handedFor_same {key : Key} (handed : Option Handed) :
    (handedFor key (handed.toList.map (key, ·) ++ log)).length =
      handed.toList.length + (handedFor key log).length := by
  cases handed <;> simp [handedFor, Nat.add_comm]

theorem handedFor_other {key other : Key} (different : other ≠ key) (handed : Option Handed) :
    handedFor key (handed.toList.map (other, ·) ++ log) = handedFor key log := by
  cases handed <;> simp [handedFor, different]

/-- The rows of every inbound key are those of a message in one of the three states. -/
theorem consistent_of_handling (handling : Handling limit log db) (key : Key)
    (inbound : key.outbound = false) : Consistent (rows db key) (handedFor key log).length := by
  induction handling with
  | fresh => exact .unknown
  | @fragment log db db' m tm fields result _ parsed ran ih =>
    rw [processInFragment, parsed, bind_ok] at ran
    obtain ⟨⟨db₁, ready⟩, inserted, returned⟩ := ran
    cases returned
    obtain ⟨step, agree⟩ := receive_of_insert inserted
    by_cases same : (inFragment m tm fields).key = key
    · subst same
      have count : (ready.map messageReady).toList.length = ready.toList.length := by
        cases ready <;> rfl
      rw [handedFor_same, count]
      exact receive_consistent ih step
    · rw [agree key (Ne.symm same), handedFor_other same]
      exact ih
  | sending _ frame ih =>
    rw [frame key inbound]
    exact ih

/-- In every store that incoming messages of any contents can bring about, a
data row has its meta row, whose count is below the number of parts it was begun
with unless that number is not positive; and a meta row alone is that of a
message that came to its number of parts and was handed over once. -/
theorem rows_consistent (handling : Handling limit log db) (key : Key)
    (inbound : key.outbound = false) :
    (∀ d, (rows db key).dataRow = some d → ∃ m, (rows db key).metaRow = some m ∧
      0 ≤ m.fragsDone ∧ (m.fragsDone < m.fragsNum ∨ m.fragsNum ≤ 0)) ∧
    ∀ m, (rows db key).metaRow = some m → (rows db key).dataRow = none →
      m.fragsDone = m.fragsNum ∧ (handedFor key log).length = 1 := by
  have consistent := consistent_of_handling handling key inbound
  generalize rows db key = r at consistent ⊢
  generalize (handedFor key log).length = handed at consistent ⊢
  cases consistent with
  | unknown => simp
  | growing counting short =>
    refine ⟨fun d _ => ⟨_, rfl, counting, short⟩, fun m _ missing => ?_⟩
    cases missing
  | finished complete =>
    refine ⟨fun d present => ?_, fun m found _ => ?_⟩
    · cases present
    · cases found
      exact ⟨complete, rfl⟩

/-- A message of one byte, in what its marker calls one of so many parts. -/
def oneByte (numParts : Nat) : Incoming where
  friendNumber := 7
  type := 0
  message := markerPrint 1234567890123 1 numParts 0 1 ++ [120]
  beyond := fun _ => 0

def oneByteKey : Key := ⟨false, 7, 1234567890123⟩

theorem markerParse_oneByte_two :
    markerParse (oneByte 2).memory (oneByte 2).message.length =
      some ⟨1234567890123, 1, 2, 0, 1, 27⟩ := by
  decide +kernel

theorem markerParse_oneByte_none :
    markerParse (oneByte 0).memory (oneByte 0).message.length =
      some ⟨1234567890123, 1, 0, 0, 1, 27⟩ := by
  decide +kernel

/-- A fragment that leaves its message unfinished. -/
theorem handling_unfinished {m : Incoming} {tm : Nat} {fields : Fields}
    (handling : Handling limit log db) (parsed : markerParse m.memory m.message.length = some fields)
    (step : receive limit (inFragment m tm fields) (rows db (inFragment m tm fields).key) =
      .ok (r, none)) :
    ∃ db', Handling limit log db' ∧ rows db' (inFragment m tm fields).key = r := by
  obtain ⟨db', inserted, _, after⟩ := insert_of_receive step
  have ran : processInFragment limit db m tm = .ok (db', none) := by
    rw [processInFragment, parsed, bind_ok]
    exact ⟨(db', none), inserted, rfl⟩
  exact ⟨db', .fragment handling parsed ran, after⟩

theorem rows_consistent_first : ∃ db, Handling defaultLimit [] db ∧
    (rows db oneByteKey).dataRow = some { message := [120] } ∧
    ∃ m, (rows db oneByteKey).metaRow = some m ∧ 0 ≤ m.fragsDone ∧
      (m.fragsDone < m.fragsNum ∨ m.fragsNum ≤ 0) := by
  have step : receive defaultLimit (inFragment (oneByte 2) 5 ⟨1234567890123, 1, 2, 0, 1, 27⟩)
      (rows {} (inFragment (oneByte 2) 5 ⟨1234567890123, 1, 2, 0, 1, 27⟩).key) =
        .ok (⟨some ⟨0, 5, 5, 1, 2⟩, some { message := [120] }⟩, none) := by
    decide +kernel
  obtain ⟨db, handling, after⟩ := handling_unfinished .fresh markerParse_oneByte_two step
  have present : (rows db oneByteKey).dataRow = some { message := [120] } :=
    congrArg Rows.dataRow after
  exact ⟨db, handling, present, (rows_consistent handling oneByteKey rfl).1 _ present⟩

/-- A message that calls itself one of no parts is counted past its number. -/
theorem counted_past_number : ∃ db m d, Handling defaultLimit [] db ∧
    rows db oneByteKey = ⟨some m, some d⟩ ∧ ¬ m.fragsDone < m.fragsNum := by
  have step : receive defaultLimit (inFragment (oneByte 0) 5 ⟨1234567890123, 1, 0, 0, 1, 27⟩)
      (rows {} (inFragment (oneByte 0) 5 ⟨1234567890123, 1, 0, 0, 1, 27⟩).key) =
        .ok (⟨some ⟨0, 5, 5, 1, 0⟩, some { message := [120] }⟩, none) := by
    decide +kernel
  obtain ⟨db, handling, after⟩ := handling_unfinished .fresh markerParse_oneByte_none step
  exact ⟨db, _, _, handling, after, by decide⟩

end Defragmenter.InboundInvariant
