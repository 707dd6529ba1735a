import Defragmenter.Restart

/-! A message that is loaded under another limit than it was sent with. The
loader compares the number of parts, and two limits can give the same number
without cutting the message in the same places. -/
namespace Defragmenter.Reloading
open Database InboundStore OutboundStore Split Sender Marker Tiling Moves Restart

variable {limit : BlobLimit} {o : Outgoing} {parts : Finset Nat} {db : Db} {w : World} {s : State}
  {p : PendingSent} {msg : MsgOutbound} {length : Nat}

/-- The row is dropped, or the message that is linked has the fragments of the
earlier session, marker and payload alike; those that were confirmed keep only
their lengths. -/
def Detects (w : World) (s : State) (p : PendingSent) (msg : MsgOutbound) (parts : Finset Nat) : Prop :=
  loadPendingSentMessage w s p = .ok (settle s p none) ∨
  ∃ m, loadPendingSentMessage w s p = .ok (settle s p (some m)) ∧ m.numParts = msg.numParts ∧
    ∀ k < m.numParts, (part m k).length = (part msg k).length ∧
      (k + 1 ∉ parts → (part m k).data = (part msg k).data)

/-- The bytes of the message in a fragment, and the number of fragments, under a
limit: what is left beside two decimal estimates of the part's number and two of the length. -/
def payloadSize (maxLength length : Nat) : Nat :=
  maxLength - (23 + 2 * numDigits (pieceCount (maxLength - 63) length) + 2 * numDigits length)

def partsUnder (maxLength length : Nat) : Nat := pieceCount (payloadSize maxLength length) length

theorem chunkSize_eq (maxLength length : Nat) : chunkSize 63 maxLength length = payloadSize maxLength length := by
  rw [chunkSize, markerMaxSizeBytes_eq, payloadSize]
  omega

/-- A larger limit leaves more for the payload. -/
theorem payloadSize_strict {low high : Nat} (room : 63 < low) (less : low < high) (small : length < 2 ^ 32) :
    payloadSize low length < payloadSize high length := by
  have fewer := numDigits_mono (@pieceCount_anti (low - 63) (high - 63) length (by omega) (by omega))
  have count := pieceCount_le length (show 0 < low - 63 by omega)
  have digits := numDigits_le_ten (show pieceCount (low - 63) length < 2 ^ 32 by omega)
  have own := numDigits_le_ten small
  unfold payloadSize
  omega

theorem payloadSize_inj {low high : Nat} (room : 63 < low) (room' : 63 < high) (small : length < 2 ^ 32) :
    payloadSize low length = payloadSize high length ↔ low = high := by
  constructor
  · intro same
    rcases Nat.lt_trichotomy low high with less | equal | more
    · exact absurd same (Nat.ne_of_lt (payloadSize_strict room less small))
    · exact equal
    · exact absurd same (Nat.ne_of_gt (payloadSize_strict room' more small))
  · rintro rfl
    rfl

/-- The row of a recorded message as it is read. -/
theorem pending_recorded (recorded : Recorded limit o parts db)
    (selected : p ∈ stmtSelectFragmentedOutboundPending db) (mine : keyOf p = o.key) :
    o.bytes.length < 2 ^ 31 ∧ p.id = o.id ∧ p.message = o.bytes ∧ p.numParts = o.numParts ∧
      p.numConfirmed = parts.card ∧ p.confirmed.length = o.numParts ∧
      p.confirmed.countP (· ≠ 0) = parts.card ∧
      ∀ k < o.numParts, p.confirmed[k]? = some (if k + 1 ∈ parts then 1 else 0) := by
  obtain ⟨small, ⟨row, metaFound, done, num⟩, data, blob, dataFound, message, confirmed, length, flags,
    count⟩ := rowsOf_recorded recorded
  have bound : limit.val < 2 ^ 31 := limit.property
  have numParts := Outgoing.numParts_le (o := o) (by omega)
  have fewer : parts.card ≤ o.numParts := by
    rw [← count, ← length]
    exact List.countP_le_length
  have shape : rows db o.key = ⟨some row, some data⟩ := by rw [← metaFound, ← dataFound]
  have same := pending_unique selected (mem_pending.mpr ⟨row, data, shape, rfl⟩ : pendingOf o.key row data ∈ _) mine
  rw [same]
  refine ⟨by omega, rfl, message, ?_, ?_, ?_, ?_, ?_⟩
  · exact (congrArg toUnsigned num).trans (toUnsigned_of_lt (by omega))
  · exact (congrArg toUnsigned done).trans (toUnsigned_of_lt (by omega))
  · simpa [pendingOf, confirmed] using length
  · simpa [pendingOf, confirmed] using count
  · simpa [pendingOf, confirmed] using flags

/-- The confirmations are complete exactly if there are as many as parts. -/
theorem all_confirmed_iff (recorded : Recorded limit o parts db)
    (selected : p ∈ stmtSelectFragmentedOutboundPending db) (mine : keyOf p = o.key) :
    parts.card < o.numParts ↔ ∃ k < o.numParts, k + 1 ∉ parts := by
  obtain ⟨-, -, -, -, -, length, count, flags⟩ := pending_recorded recorded selected mine
  rw [← count, ← length]
  constructor
  · intro fewer
    by_contra all
    push Not at all
    refine Nat.ne_of_lt fewer (List.countP_eq_length.mpr fun b member => ?_)
    obtain ⟨k, inside, rfl⟩ := List.mem_iff_getElem.mp member
    have flag := flags k (length ▸ inside)
    rw [List.getElem?_eq_getElem inside, if_pos (all k inside)] at flag
    simp [Option.some.inj flag]
  · rintro ⟨k, inside, missing⟩
    refine Nat.lt_of_le_of_ne List.countP_le_length fun all => ?_
    have flag := flags k (length ▸ inside)
    rw [if_neg missing] at flag
    have confirmed := List.countP_eq_length.mp all 0 (List.mem_of_getElem? flag)
    simp at confirmed

/-- What the row of a recorded message becomes under a limit. -/
theorem load_recorded (recorded : Recorded limit o parts db)
    (selected : p ∈ stmtSelectFragmentedOutboundPending db) (mine : keyOf p = o.key)
    (ready : s.markerMaxSizeEver = 63) (room : 63 < w.params.maxMessageLength)
    (limitSmall : w.params.maxMessageLength < 2 ^ 32) :
    let size := payloadSize w.params.maxMessageLength o.bytes.length
    if pieceCount size o.bytes.length = o.numParts ∧ parts.card < o.numParts then
      ∃ m, loadPendingSentMessage w s p = .ok (settle s p (some m)) ∧ m.numParts = o.numParts ∧
        ∀ k < o.numParts, part m k =
          if k + 1 ∈ parts then { fragmentAt o.id size o.bytes k with confirmed := true, data := none }
          else fragmentAt o.id size o.bytes k
    else loadPendingSentMessage w s p = .ok (settle s p none) := by
  obtain ⟨small, id, message, numParts, numConfirmed, length, count, flags⟩ :=
    pending_recorded recorded selected mine
  have split := @splitMessage_eq 63 w.params.maxMessageLength p.id p.message (Nat.le_refl 63) room limitSmall
    (by rw [message]; omega)
  rw [chunkSize_eq, message, id] at split
  have filtered : (p.confirmed.filter (· ≠ 0)).length = parts.card := by
    rw [← List.countP_eq_length_filter, count]
  have ran := @loadPendingSentMessage_settles w s p _ (by rw [ready, message, id]; exact split)
  dsimp only
  split
  · rename_i kept
    obtain ⟨same, fewer⟩ := kept
    rw [ran, resume]
    simp only [filtered, numParts, numConfirmed, length]
    rw [if_pos ⟨same, same, trivial, fewer⟩]
    refine ⟨_, rfl, same, fun k inside => ?_⟩
    have flag : p.confirmed[k]? = some (if decide (k + 1 ∈ parts) = true then 1 else 0) := by
      rw [flags k inside]
      simp
    refine (part_restored flag (same ▸ inside)).trans ?_
    simp
  · rename_i dropped
    rw [ran, resume]
    simp only [filtered, numParts, numConfirmed, length]
    rw [if_neg]
    rintro ⟨same, -, -, fewer⟩
    exact dropped ⟨same, fewer⟩

theorem detects_iff (recorded : Recorded limit o parts db) (split : o.SplitAs msg)
    (selected : p ∈ stmtSelectFragmentedOutboundPending db) (mine : keyOf p = o.key)
    (ready : s.markerMaxSizeEver = 63) (room : 63 < w.params.maxMessageLength)
    (limitSmall : w.params.maxMessageLength < 2 ^ 32) :
    Detects w s p msg parts ↔ w.params.maxMessageLength = o.maxLength ∨
      partsUnder w.params.maxMessageLength o.bytes.length ≠ partsUnder o.maxLength o.bytes.length ∨
      ∀ k < partsUnder o.maxLength o.bytes.length, k + 1 ∈ parts := by
  obtain ⟨small, -⟩ := pending_recorded recorded selected mine
  have lengthSmall : o.bytes.length < 2 ^ 32 := by omega
  obtain rfl := (Outgoing.splitAs_iff lengthSmall).mp split
  have sizeEq : o.size = payloadSize o.maxLength o.bytes.length := chunkSize_eq _ _
  have counted : partsUnder o.maxLength o.bytes.length = o.numParts := by
    rw [partsUnder, ← sizeEq, Outgoing.numParts]
  have loads := load_recorded recorded selected mine ready room limitSmall
  have missing := all_confirmed_iff recorded selected mine
  have positive := Outgoing.size_pos lengthSmall
  have short : o.size < o.bytes.length := Nat.lt_of_le_of_lt (Nat.sub_le ..) o.long
  rw [counted]
  dsimp only at loads
  split at loads
  · rename_i kept
    obtain ⟨same, fewer⟩ := kept
    obtain ⟨m, ran, numParts, fragments⟩ := loads
    obtain ⟨j, insideJ, absent⟩ := missing.mp fewer
    have notDropped : settle s p (some m) ≠ settle s p none := by
      intro equal
      exact absurd (congrArg State.fresh equal) (Nat.succ_ne_self s.fresh)
    constructor
    · rintro (dropped | ⟨m', linked, -, same'⟩)
      · rw [ran] at dropped
        exact absurd (Except.ok.inj dropped) notDropped
      · left
        have linked' := congrArg State.heap (Except.ok.inj (ran.symm.trans linked))
        have found := congrFun linked' s.fresh
        simp only [settle, State.alloc, Function.update_self] at found
        obtain rfl := Option.some.inj found
        have data := (same' j (numParts ▸ insideJ)).2 absent
        rw [fragments j insideJ, if_neg absent, part_splitInto insideJ] at data
        have other : payloadSize w.params.maxMessageLength o.bytes.length < o.bytes.length := by
          have reserved : 0 < payloadSize w.params.maxMessageLength o.bytes.length := by
            rw [← chunkSize_eq]
            exact chunkSize_pos (Nat.le_refl 63) room lengthSmall
          have two : 1 < pieceCount o.size o.bytes.length := (lt_pieceCount_iff positive).mpr (by omega)
          have two' : 1 < pieceCount (payloadSize w.params.maxMessageLength o.bytes.length) o.bytes.length := by
            rw [same]
            exact two
          have beyond := (lt_pieceCount_iff reserved).mp two'
          omega
        have sizes := fragmentBytes_inj (Option.some.inj data) same other short
        rw [sizeEq] at sizes
        exact (payloadSize_inj room o.room lengthSmall).mp sizes
    · rintro (equal | differ | all)
      · refine .inr ⟨m, ran, numParts, fun k inside => ?_⟩
        rw [numParts] at inside
        rw [fragments k inside, part_splitInto inside, equal, ← sizeEq]
        split
        · rename_i done
          exact ⟨rfl, fun missing => absurd done missing⟩
        · exact ⟨rfl, fun _ => rfl⟩
      · exact absurd same differ
      · exact absurd (all j insideJ) absent
  · rename_i dropped
    refine ⟨fun _ => ?_, fun _ => .inl loads⟩
    by_cases same : partsUnder w.params.maxMessageLength o.bytes.length = o.numParts
    · refine .inr (.inr ?_)
      have all : ¬ ∃ k < o.numParts, k + 1 ∉ parts := fun open_ => dropped ⟨same, missing.mpr open_⟩
      push Not at all
      exact all
    · exact .inr (.inl same)

/-- Exactly two different limits that make equally many parts go unnoticed. -/
theorem changed_fragmentation_detected_iff (recorded : Recorded limit o parts db) (split : o.SplitAs msg)
    (selected : p ∈ stmtSelectFragmentedOutboundPending db) (mine : keyOf p = o.key)
    (ready : s.markerMaxSizeEver = markerMaxSizeBytes (2 ^ 31 - 1) (2 ^ 31 - 1))
    (room : 63 < w.params.maxMessageLength) (limitSmall : w.params.maxMessageLength < 2 ^ 32) :
    Detects w s p msg parts ↔ w.params.maxMessageLength = o.maxLength ∨
      partsUnder w.params.maxMessageLength o.bytes.length ≠ partsUnder o.maxLength o.bytes.length ∨
      ∀ k < partsUnder o.maxLength o.bytes.length, k + 1 ∈ parts :=
  detects_iff recorded split selected mine (ready.trans markerMaxSizeEver_eq) room limitSmall

/-- The stored row of the two parts. -/
theorem twoParts_row : ∃ msg db p, (twoParts 0).SplitAs msg ∧ Recorded defaultLimit (twoParts 0) ∅ db ∧
    p ∈ stmtSelectFragmentedOutboundPending db ∧ keyOf p = (twoParts 0).key := by
  have ran : (recordTwoParts 0).toOption.any (fun _ => true) = true := by decide +kernel
  obtain ⟨⟨msg, db⟩, ran, -⟩ := any_toOption.mp ran
  obtain ⟨split, recorded⟩ := recorded_twoParts ran
  obtain ⟨-, ⟨row, metaFound, -⟩, data, _, dataFound, -⟩ := rowsOf_recorded recorded
  have shape : rows db (twoParts 0).key = ⟨some row, some data⟩ := by rw [← metaFound, ← dataFound]
  exact ⟨msg, db, pendingOf (twoParts 0).key row data, split, recorded, mem_pending.mpr ⟨row, data, shape, rfl⟩, rfl⟩

/-- A process that has been initialized. -/
def initialized : State where
  markerMaxSizeEver := markerMaxSizeBytes (2 ^ 31 - 1) (2 ^ 31 - 1)

/-- Under a limit of seventy the two parts would be four, and the row is dropped. -/
theorem changed_fragmentation_detected_four : ∃ msg db p, Recorded defaultLimit (twoParts 0) ∅ db ∧
    p ∈ stmtSelectFragmentedOutboundPending db ∧ 63 < 70 ∧
    Detects (scripted { maxMessageLength := 70 } [] []) initialized p msg ∅ := by
  obtain ⟨msg, db, p, split, recorded, selected, mine⟩ := twoParts_row
  refine ⟨msg, db, p, recorded, selected, by decide, ?_⟩
  exact (changed_fragmentation_detected_iff recorded split selected mine rfl (by decide) (by decide)).mpr
    (.inr (.inl (by decide +kernel)))

/-- Under a limit of ninety-nine the two parts are two again, of other sizes. -/
theorem changed_fragmentation_missed : ∃ msg db p, (twoParts 0).SplitAs msg ∧
    Recorded defaultLimit (twoParts 0) ∅ db ∧ p ∈ stmtSelectFragmentedOutboundPending db ∧
    keyOf p = (twoParts 0).key ∧ ¬ Detects (scripted { maxMessageLength := 99 } [] []) initialized p msg ∅ := by
  obtain ⟨msg, db, p, split, recorded, selected, mine⟩ := twoParts_row
  refine ⟨msg, db, p, split, recorded, selected, mine, fun detects => ?_⟩
  have cases := (detects_iff recorded split selected mine markerMaxSizeEver_eq (by decide) (by decide)).mp detects
  revert cases
  decide +kernel

end Defragmenter.Reloading
