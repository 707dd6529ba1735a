import Defragmenter.Bookkeeping
import Defragmenter.PendingQuery
import Defragmenter.Restart

/-! Memory and store at the end of a call. The messages in the list are those a
restart would be handed, and the rows of each say of it what its fragments say,
as long as the accounts are right and the list loses no message. -/
namespace Defragmenter.Agreement
open Database InboundStore OutboundStore Split Receipts Sender Moves Provenance Tracking
  Accounting Messages PendingQuery Bookkeeping Runs

/-- The confirmations of the fragments, as the `confirmed` blob has them. -/
def flags (m : MsgOutbound) : List UInt8 := m.fragments.map fun f => if f.confirmed then 1 else 0

/-- The rows of the message say what it says. -/
structure Copied (db : Db) (m : MsgOutbound) : Prop where
  confirmed : (db.fragmentedData.lookup (outboundKey m.friendNumber m.id)).bind (·.confirmed) =
    some (flags m)
  done : (db.fragmentedMeta.lookup (outboundKey m.friendNumber m.id)).map (·.fragsDone) =
    some (m.numConfirmed : Int)
  counted : m.numConfirmed = (flags m).count 1

instance {db : Db} {m : MsgOutbound} : Decidable (Copied db m) :=
  decidable_of_iff (_ ∧ _ ∧ _) ⟨fun ⟨a, b, c⟩ => ⟨a, b, c⟩, fun ⟨a, b, c⟩ => ⟨a, b, c⟩⟩

/-- The list and the pending rows name the same messages, and say the same of them. -/
structure Agrees (s : State) : Prop where
  same : ∀ friendNumber id,
    (∃ p ∈ stmtSelectFragmentedOutboundPending s.db, p.friendNumber = friendNumber ∧ p.id = id) ↔
      ∃ a ∈ s.msgsOutbound, ∃ m, s.heap a = some m ∧ m.friendNumber = friendNumber ∧ m.id = id
  copied : ∀ a ∈ s.msgsOutbound, ∀ m, s.heap a = some m → Copied s.db m

variable {w : World} {s : State} {m : MsgOutbound} {db : Db}

theorem count_flags : (flags m).count 1 = m.fragments.countP (·.confirmed) := by
  rw [flags, List.count, List.countP_map]
  refine List.countP_congr fun f _ => ?_
  cases confirmed : f.confirmed <;> simp [confirmed]

theorem getElem?_flags {i : Nat} (inside : i < m.fragments.length) :
    (flags m)[i]? = some (flagByte m i) := by
  simp [flags, flagByte, part, List.getD_eq_getElem?_getD, inside]

theorem copied_of_recorded (recorded : RecordedIn db m) (shaped : m.fragments.length = m.numParts)
    (counted : m.numConfirmed = m.fragments.countP (·.confirmed)) : Copied db m := by
  obtain ⟨row, data, blob, here, confirmed, length, _, done, _, bytes⟩ := recorded
  have metaFound : db.fragmentedMeta.lookup (outboundKey m.friendNumber m.id) = some row :=
    congrArg Rows.metaRow here
  have dataFound : db.fragmentedData.lookup (outboundKey m.friendNumber m.id) = some data :=
    congrArg Rows.dataRow here
  have same : blob = flags m := by
    refine List.ext_getElem? fun i => ?_
    rcases Nat.lt_or_ge i m.numParts with inside | beyond
    · rw [bytes i inside, getElem?_flags (by omega)]
    · rw [List.getElem?_eq_none (by omega), List.getElem?_eq_none]
      rw [flags, List.length_map]
      omega
  refine ⟨?_, ?_, counted.trans count_flags.symm⟩
  · rw [dataFound, Option.bind_some, confirmed, same]
  · rw [metaFound, Option.map_some, done]

/-- What a restart would be handed is what the list holds. -/
theorem agrees_of_stored (orderly : Orderly w ⟨s, none, none⟩) (owned : Owned ⟨s, none, none⟩)
    (stored : Stored ⟨s, none, none⟩) (listing : Listing ⟨s, none, none⟩) : Agrees s where
  same friendNumber id := by
    constructor
    · rintro ⟨p, member, rfl, rfl⟩
      obtain ⟨row, data, here, _⟩ := Restart.mem_pending.mp member
      have held : (rows s.db (outboundKey p.friendNumber p.id)).dataRow ≠ none := by
        rw [show outboundKey p.friendNumber p.id = Restart.keyOf p from rfl, here]
        exact Option.some_ne_none data
      obtain ⟨a, m, found, _, same⟩ := stored.backed _ rfl held
      refine ⟨a, (listing.listed a m found).resolve_left (by simp), m, found, ?_, ?_⟩
      · exact (congrArg Key.friendId same).symm
      · exact (congrArg Key.fragsId same).symm
    · rintro ⟨a, _, m, found, rfl, rfl⟩
      obtain ⟨row, data, _, here, _⟩ := (stored.recorded a m found).resolve_left (by simp)
      refine ⟨Restart.pendingOf (outboundKey m.friendNumber m.id) row data,
        Restart.mem_pending.mpr ⟨row, data, here, rfl⟩, rfl, rfl⟩
  copied a _ m found := copied_of_recorded ((stored.recorded a m found).resolve_left (by simp))
    (orderly.issued.shaped found).1 ((accounted_of_owned orderly owned).confirmed a m found)

/-- In every run whose cursors lead where they are used, and in which no receipt
completes the first of exactly two messages, memory and store agree. -/
theorem agrees_of_kept {ops : List Op} (increasing : Increasing w)
    (run : Run (step w) (fun s op => Leading w s op ∧ KeepsOthers s op) (Started w) ops s) :
    Agrees s := by
  obtain ⟨orderly, owned, stored⟩ := leading_invariant (I := Stored) increasing
    (run.weaken fun _ _ => And.left) .initial
    fun orderly owned move before => before.move orderly owned move
  have tracked := tracked_of_run (run.weaken fun _ _ => And.right)
  exact agrees_of_stored orderly owned stored tracked.listing

/-- One of two messages is completed, the other half confirmed. -/
theorem agrees_of_second : ∃ s,
    Run (step twoMessages) (fun s op => Leading twoMessages s op ∧ KeepsOthers s op)
      (Started twoMessages)
      [.receipt 1 5, .receipt 1 7, .receipt 1 8, .send 1 0 (List.replicate 65 2) fun _ => 0,
        .send 1 0 (List.replicate 65 1) fun _ => 0] s ∧
    s.msgsOutbound = [0] ∧ Agrees s := by
  obtain ⟨s, run, checked⟩ := exists_run (step twoMessages)
    (fun s op => Leading twoMessages s op ∧ KeepsOthers s op)
    [.send 1 0 (List.replicate 65 1) fun _ => 0, .send 1 0 (List.replicate 65 2) fun _ => 0,
      .receipt 1 8, .receipt 1 7, .receipt 1 5]
    (fun s => s.msgsOutbound = [0]) (started_initialState twoMessages) (by decide +kernel)
  exact ⟨s, run, of_decide_eq_true checked, agrees_of_kept (increasing_scripted (by decide)) run⟩

/-- The first is completed, and the list is empty while the row of the second stays. -/
theorem second_row_left : ∃ s,
    Increasing twoMessages ∧
    Run (step twoMessages) (fun _ op => Proper op) (Started twoMessages)
      [.receipt 1 6, .receipt 1 5, .send 1 0 (List.replicate 65 2) fun _ => 0,
        .send 1 0 (List.replicate 65 1) fun _ => 0] s ∧ ¬ Agrees s := by
  obtain ⟨s, run, checked⟩ := exists_run (step twoMessages) (fun _ op => Proper op)
    [.send 1 0 (List.replicate 65 1) fun _ => 0, .send 1 0 (List.replicate 65 2) fun _ => 0,
      .receipt 1 5, .receipt 1 6]
    (fun s => s.msgsOutbound = [] ∧ stmtSelectFragmentedOutboundPending s.db ≠ [])
    (started_initialState twoMessages) (by decide +kernel)
  obtain ⟨empty, left⟩ := of_decide_eq_true checked
  refine ⟨s, increasing_scripted (by decide), run, fun agrees => ?_⟩
  obtain ⟨p, member⟩ := List.exists_mem_of_ne_nil _ left
  obtain ⟨a, absent, _⟩ := (agrees.same p.friendNumber p.id).mp ⟨p, member, rfl, rfl⟩
  rw [empty] at absent
  cases absent

end Defragmenter.Agreement
