import Defragmenter.InboundHistory

/-! Which incoming messages the receiver survives. Every number of a marker is
the sender's to choose, and nothing compares them with one another or with the
blob an earlier fragment fixed: a fragment whose place is not inside that blob
ends in `abort`. -/
namespace Defragmenter.RemoteAbort
open Database InboundStore InboundHistory Receiver Marker

/-- The stores a receiver can come to: incoming messages of any contents, and
anything the sending half does to its own rows. -/
inductive Visited (limit : BlobLimit) : Db → Prop where
  | fresh : Visited limit {}
  | message {db db' : Db} {m : Incoming} {tm : Nat} {handed : Option Handed} : Visited limit db →
      friendMessageCb limit db m tm = .ok (db', handed) → Visited limit db'
  | sending {db db' : Db} : Visited limit db →
      (∀ key, key.outbound = false → rows db' key = rows db key) → Visited limit db'

/-- Where a fragment may go: its message is complete; or its place starts in
the blob it has, or the blob it is to get, and is taken or has room for it. -/
def Placed (limit : BlobLimit) (f : InboundFragment) (r : Rows) : Prop :=
  match r.metaRow, r.dataRow with
  | some _, none => True
  | some _, some d => f.off < d.message.length ∧
      (d.message[f.off]? ≠ some 0 ∨ f.off + f.length % 2 ^ 32 ≤ d.message.length)
  | none, _ => f.sz ≤ limit.val ∧ f.off < f.sz ∧ f.off + f.length % 2 ^ 32 ≤ f.sz

instance (limit : BlobLimit) (f : InboundFragment) (r : Rows) : Decidable (Placed limit f r) := by
  unfold Placed
  split <;> infer_instance

variable {limit : BlobLimit} {db : Db} {f : InboundFragment} {r : Rows}

theorem history_of_visited (visited : Visited limit db) : ∃ past, History limit past db := by
  induction visited with
  | fresh => exact ⟨[], .fresh⟩
  | @message db db' m tm handed _ ran ih =>
    obtain ⟨past, history⟩ := ih
    cases parsed : markerParse m.memory m.message.length with
    | none =>
      rw [friendMessageCb_other parsed] at ran
      cases ran
      exact ⟨past, history⟩
    | some fields =>
      rw [friendMessageCb_fragment parsed, bind_ok] at ran
      obtain ⟨⟨db₁, ready⟩, inserted, returned⟩ := ran
      cases returned
      exact ⟨_, .received history inserted⟩
  | sending _ frame ih =>
    obtain ⟨past, history⟩ := ih
    exact ⟨past, .sending history frame⟩

theorem receive_returns_iff (tracked : r.dataRow.isSome → r.metaRow.isSome) :
    (∃ result, receive limit f r = .ok result) ↔ Placed limit f r := by
  obtain ⟨metaRow, dataRow⟩ := r
  cases metaRow with
  | some m =>
    cases dataRow with
    | none => simp [receive, Placed]
    | some d => exact deposit_returns_iff
  | none =>
    cases dataRow with
    | some d => simp at tracked
    | none =>
      by_cases large : limit.val < f.sz
      · have notPlaced : ¬ f.sz ≤ limit.val := by omega
        simp [receive, Placed, large, notPlaced]
      · have begins : (List.replicate f.sz (0 : UInt8))[f.off]? = some 0 ↔ f.off < f.sz := by
          rw [List.getElem?_replicate]
          simp
        simp only [receive, Placed, large, ↓reduceIte, deposit_returns_iff, List.length_replicate,
          ne_eq, begins]
        omega

/-- A message from any friend, in any store the receiver can come to, is
processed to a normal return exactly if it is no fragment or its fragment has a
place to go. -/
theorem friendMessageCb_returns_iff (visited : Visited limit db) (m : Incoming) (tm : Nat) :
    (∃ result, friendMessageCb limit db m tm = .ok result) ↔
      ∀ fields, markerParse m.memory m.message.length = some fields →
        Placed limit (inFragment m tm fields) (rows db (inFragment m tm fields).key) := by
  cases parsed : markerParse m.memory m.message.length with
  | none => simp [friendMessageCb_other parsed]
  | some fields =>
    obtain ⟨past, history⟩ := history_of_visited visited
    have tracked := dataRow_tracked history (inFragment m tm fields).key rfl
    simp only [Option.some.injEq, forall_eq']
    rw [friendMessageCb_fragment parsed, ← receive_returns_iff tracked, ← insert_returns_iff]
    constructor
    · rintro ⟨result, ran⟩
      obtain ⟨inserted, ran, _⟩ := bind_ok.mp ran
      exact ⟨inserted, ran⟩
    · rintro ⟨⟨db', ready⟩, inserted⟩
      exact ⟨_, bind_ok.mpr ⟨_, inserted, rfl⟩⟩

/-- A message whose marker places its one payload byte at offset 9 of a message
of one byte. -/
def misplaced : Incoming where
  friendNumber := 7
  type := 0
  message := markerPrint 1234567890123 1 1 9 1 ++ [120]
  beyond := fun _ => 0

/-- The same with the offset inside the message. -/
def wellPlaced : Incoming where
  friendNumber := 7
  type := 0
  message := markerPrint 1234567890123 1 1 0 1 ++ [120]
  beyond := fun _ => 0

theorem markerParse_misplaced :
    markerParse misplaced.memory misplaced.message.length = some ⟨1234567890123, 1, 1, 9, 1, 27⟩ := by
  decide +kernel

theorem markerParse_wellPlaced :
    markerParse wellPlaced.memory wellPlaced.message.length =
      some ⟨1234567890123, 1, 1, 0, 1, 27⟩ := by
  decide +kernel

theorem friendMessageCb_wellPlaced :
    ∃ result, friendMessageCb defaultLimit {} wellPlaced 5 = .ok result := by
  refine (friendMessageCb_returns_iff .fresh wellPlaced 5).mpr fun fields parsed => ?_
  rw [markerParse_wellPlaced] at parsed
  cases parsed
  decide +kernel

/-- One message from any friend stops a receiver that has seen nothing yet. -/
theorem friendMessageCb_misplaced : Visited defaultLimit {} ∧
    friendMessageCb defaultLimit {} misplaced 5 = .error .abort := by
  refine ⟨.fresh, ?_⟩
  have step : receive defaultLimit (inFragment misplaced 5 ⟨1234567890123, 1, 1, 9, 1, 27⟩)
      (rows {} (inFragment misplaced 5 ⟨1234567890123, 1, 1, 9, 1, 27⟩).key) = .error .abort := by
    decide +kernel
  have agrees := dbInsertInboundFragment_receive defaultLimit {}
    (inFragment misplaced 5 ⟨1234567890123, 1, 1, 9, 1, 27⟩)
  rw [step] at agrees
  rw [friendMessageCb_fragment markerParse_misplaced, agrees]
  rfl

end Defragmenter.RemoteAbort
