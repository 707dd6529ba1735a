import Defragmenter.Restart

/-! A crash while a receipt is being recorded. The byte of a part and the count
of confirmed parts are written by two statements, and `loadPendingSentMessage`
takes a message whose count is not that of its bytes for damaged. -/
namespace Defragmenter.OutboundCrash
open Database InboundStore OutboundStore Split Tiling Sender Restart

/-- A call that writes to the rows of a pending message. -/
inductive Call where
  | partConfirmed (friendNumber id partNo tm : Nat)
  | clearPending (friendNumber id : Nat)

/-- What is on disk if the process crashes behind the given effect of the call. -/
def Call.cutShort (stop : Statement) (db : Db) : Call → Except Fault Db
  | .partConfirmed friendNumber id partNo tm => partConfirmedUntil stop db friendNumber id partNo tm
  | .clearPending friendNumber id => .ok (dbClearOutboundPending db friendNumber id)

/-- If the call is for this message, it is for a part that was not confirmed before. -/
def Call.Fits (o : Outgoing) (parts : Finset Nat) : Call → Prop
  | .partConfirmed friendNumber id partNo _ => friendNumber = o.friendNumber → id = o.id →
      partNo ∉ parts ∧ 0 < partNo ∧ partNo ≤ o.numParts
  | .clearPending .. => True

/-- The crash comes between the byte of a part of this message and its count. -/
def Torn (o : Outgoing) (stop : Statement) : Call → Prop
  | .partConfirmed friendNumber id _ _ => stop = .blobWrite ∧ friendNumber = o.friendNumber ∧ id = o.id
  | .clearPending .. => False

/-- The message still has a part whose stored byte is zero. -/
def Unfinished (o : Outgoing) (db : Db) : Prop :=
  ∃ data blob, (rows db o.key).dataRow = some data ∧ data.confirmed = some blob ∧ 0 ∈ blob

variable {limit : BlobLimit} {o : Outgoing} {parts : Finset Nat} {db db' : Db} {stop : Statement}
  {call : Call} {w : World} {friendNumber id partNo tm : Nat}

/-- What a crash leaves of the rows of a message. -/
theorem rows_cutShort (rowsOf : RowsOf limit o parts (rows db o.key)) (fits : call.Fits o parts)
    (ran : call.cutShort stop db = .ok db') (unfinished : Unfinished o db') :
    (¬ Torn o stop call ∧ ∃ parts', RowsOf limit o parts' (rows db' o.key)) ∨
    (Torn o stop call ∧ ∃ row data blob, rows db' o.key = ⟨some row, some data⟩ ∧
      data.confirmed = some blob ∧ blob.length = o.numParts ∧ row.fragsDone + 1 = blob.countP (· ≠ 0)) := by
  cases call with
  | clearPending friendNumber id =>
    refine .inl ⟨nofun, parts, ?_⟩
    cases ran
    have cleared := @rows_cleared db friendNumber id o.key
    by_cases same : o.key = outboundKey friendNumber id
    · rw [if_pos same] at cleared
      obtain ⟨data, _, found, _⟩ := unfinished
      rw [cleared] at found
      cases found
    · rw [if_neg same] at cleared
      rwa [cleared]
  | partConfirmed friendNumber id partNo tm =>
    by_cases own : friendNumber = o.friendNumber ∧ id = o.id
    · obtain ⟨rfl, rfl⟩ := own
      obtain ⟨new, positive, inside⟩ := fits rfl rfl
      by_cases cut : stop = .blobWrite
      · refine .inr ⟨⟨cut, rfl, rfl⟩, ?_⟩
        obtain ⟨small, ⟨row, metaFound, done, num⟩, data, blob, dataFound, message, confirmed, length,
          flags, count⟩ := rowsOf
        have bound : limit.val < 2 ^ 31 := limit.property
        have numParts := Outgoing.numParts_le (o := o) (by omega)
        have here : rows db (outboundKey o.friendNumber o.id) = ⟨some row, some data⟩ := by
          rw [← metaFound, ← dataFound]
          rfl
        obtain ⟨db₁, ran₁, after, _⟩ := @rows_partConfirmedUntil db o.friendNumber o.id tm partNo stop row
          data blob here confirmed positive (by omega) (by omega)
        cases ran.symm.trans ran₁
        rw [if_pos cut] at after
        obtain ⟨length', _, count'⟩ := flags_set length flags count new positive inside
        refine ⟨row, _, _, after, rfl, length', ?_⟩
        rw [done, count', Finset.card_insert_of_notMem new]
        omega
      · refine .inl ⟨fun torn => cut torn.1, insert partNo parts, ?_⟩
        have whole : dbOutboundPartConfirmed db o.friendNumber o.id partNo tm = .ok db' := by
          rw [← partConfirmedUntil_whole cut]
          exact ran
        exact rowsOf_confirmed rowsOf new positive inside whole
    · refine .inl ⟨fun torn => own torn.2, parts, ?_⟩
      have agree := partConfirmedUntil_agree ran
      have other : o.key ≠ outboundKey friendNumber id := by
        intro same
        exact own ⟨(congrArg Key.friendId same).symm, (congrArg Key.fragsId same).symm⟩
      rwa [agree _ other]

/-- A row whose count is not that of its bytes is discarded. -/
theorem discarded_of_torn {row : MetaRow} {data : DataRow} {blob : List UInt8} {s : State}
    (adopted : Adopted w db (stmtSelectFragmentedOutboundPending db) s)
    (here : rows db o.key = ⟨some row, some data⟩) (confirmed : data.confirmed = some blob)
    (behind : row.fragsDone + 1 = blob.countP (· ≠ 0)) :
    (rows s.db o.key).dataRow = none := by
  have selected : pendingOf o.key row data ∈ stmtSelectFragmentedOutboundPending db :=
    mem_pending.mpr ⟨row, data, here, rfl⟩
  refine adopted.dropped _ selected ?_
  have different : toUnsigned row.fragsDone ≠ (blob.filter (· ≠ 0)).length := by
    rw [← List.countP_eq_length_filter]
    unfold toUnsigned
    omega
  unfold loaded
  cases splitMessage 0 (pendingOf o.key row data).message w.params.maxMessageLength
      (pendingOf o.key row data).id with
  | error fault => rfl
  | ok m =>
    refine if_neg fun all => ?_
    have count := all.2.2.1
    simp only [pendingOf, confirmed, Option.getD_some] at count
    exact different count

/-- A message whose parts a starting process counts as before is discarded by it
exactly if the crash came between the byte of one of its parts and its count. -/
theorem pending_kept_iff (recorded : Recorded limit o parts db)
    (sameLimit : w.params.maxMessageLength = o.maxLength)
    (sameCount : pieceCount o.startSize o.bytes.length = o.numParts) (fits : call.Fits o parts)
    (ran : call.cutShort stop db = .ok db') (unfinished : Unfinished o db') :
    ∃ s, initializeBoth w { db := reopened db' } = .ok s ∧
      ((rows s.db o.key).dataRow.isSome ↔ ¬ Torn o stop call) := by
  have room : 63 < w.params.maxMessageLength := sameLimit ▸ o.room
  have limitSmall : w.params.maxMessageLength < 2 ^ 32 := sameLimit ▸ o.maxLengthSmall
  obtain ⟨s, started, adopted⟩ := initializeBoth_adopted room limitSmall (reopened db')
  refine ⟨s, started, ?_⟩
  have before := rowsOf_recorded recorded
  have bound : limit.val < 2 ^ 31 := limit.property
  have numParts := Outgoing.numParts_le (o := o) (by have := before.small; omega)
  have short := before.small
  rcases rows_cutShort before fits ran unfinished with
    ⟨whole, parts', rowsOf⟩ | ⟨torn, row, data, blob, here, confirmed, _, behind⟩
  · refine iff_of_true ?_ whole
    obtain ⟨data, blob, found, confirmed, zero⟩ := unfinished
    have rowsOf' : RowsOf limit o parts' (rows (reopened db') o.key) := rowsOf
    obtain ⟨data', blob', found', _, confirmed', length, flags, _⟩ := rowsOf.dataRow
    rw [found, Option.some.injEq] at found'
    subst found'
    rw [confirmed, Option.some.injEq] at confirmed'
    subst confirmed'
    obtain ⟨k, at_k⟩ := List.getElem?_of_mem zero
    have inside : k < o.numParts := by
      rw [← length]
      exact (List.getElem?_eq_some_iff.mp at_k).1
    have missing : k + 1 ∉ parts' := by
      intro present
      rw [flags k inside, if_pos present] at at_k
      cases at_k
    obtain ⟨p, selected, ofKey, _, kept⟩ := loaded_pending sameLimit rowsOf' inside missing
    obtain ⟨m, resumed, _⟩ := kept sameCount
    have untouched : rows s.db o.key = rows (reopened db') o.key := by
      refine adopted.kept _ fun q member none_ same => ?_
      rw [pending_unique member selected (same.trans ofKey.symm), resumed] at none_
      cases none_
    rw [untouched]
    change (rows db' o.key).dataRow.isSome
    rw [found]
    rfl
  · refine iff_of_false ?_ (not_not.mpr torn)
    have gone := discarded_of_torn (o := o) adopted here confirmed behind
    rw [gone]
    simp

/-- The receipt of the first of two parts. -/
def firstReceipt : Call := .partConfirmed 7 1234567890123 1 1234567890124

/-- Two parts recorded, and a crash behind this effect of the receipt for the first. -/
theorem cutShort_twoParts (stop : Statement)
    (ran : (recordTwoParts 0x70000001).toOption.any (fun r =>
      (firstReceipt.cutShort stop r.2).toOption.any fun db =>
        ((db.fragmentedData.lookup (twoParts 0x70000001).key).bind (·.confirmed)).any (0 ∈ ·)) = true) :
    ∃ db db', Recorded defaultLimit (twoParts 0x70000001) ∅ db ∧
      firstReceipt.cutShort stop db = .ok db' ∧ Unfinished (twoParts 0x70000001) db' := by
  obtain ⟨⟨msg, db⟩, recorded, checked⟩ := any_toOption.mp ran
  obtain ⟨db', cut, open_⟩ := any_toOption.mp checked
  obtain ⟨blob, found, zero⟩ := (Option.any_eq_true _ _).mp open_
  obtain ⟨data, here, confirmed⟩ := Option.bind_eq_some_iff.mp found
  exact ⟨db, db', (recorded_twoParts recorded).2, cut, data, blob, here, confirmed, of_decide_eq_true zero⟩

theorem fits_firstReceipt : firstReceipt.Fits (twoParts 0x70000001) ∅ := by
  intro _ _
  refine ⟨Finset.notMem_empty 1, by decide, ?_⟩
  decide +kernel

/-- A crash behind the count does no harm. -/
theorem pending_kept_after_count : ∃ db' s,
    initializeBoth (scripted { maxMessageLength := 100 } [] []) { db := reopened db' } = .ok s ∧
    Unfinished (twoParts 0x70000001) db' ∧
    (rows s.db (twoParts 0x70000001).key).dataRow.isSome := by
  obtain ⟨db, db', recorded, cut, unfinished⟩ := cutShort_twoParts .counterUpdate (by decide +kernel)
  obtain ⟨s, started, kept⟩ := pending_kept_iff (w := scripted { maxMessageLength := 100 } [] [])
    recorded rfl (by decide +kernel) fits_firstReceipt cut unfinished
  exact ⟨db', s, started, unfinished, kept.mpr fun torn => by cases torn.1⟩

/-- A crash before the count makes the next process drop the message, although
its second part was never confirmed. -/
theorem crash_before_count : ∃ db db' s, Recorded defaultLimit (twoParts 0x70000001) ∅ db ∧
    firstReceipt.cutShort .blobWrite db = .ok db' ∧ Unfinished (twoParts 0x70000001) db' ∧
    initializeBoth (scripted { maxMessageLength := 100 } [] []) { db := reopened db' } = .ok s ∧
    (rows s.db (twoParts 0x70000001).key).dataRow = none := by
  obtain ⟨db, db', recorded, cut, unfinished⟩ := cutShort_twoParts .blobWrite (by decide +kernel)
  obtain ⟨s, started, adopted⟩ := initializeBoth_adopted
    (w := scripted { maxMessageLength := 100 } [] []) (by decide) (by decide) (reopened db')
  have torn : Torn (twoParts 0x70000001) .blobWrite firstReceipt := ⟨rfl, rfl, rfl⟩
  have rowsOf := rowsOf_recorded recorded
  rcases rows_cutShort rowsOf fits_firstReceipt cut unfinished with
    ⟨whole, _⟩ | ⟨_, row, data, blob, here, confirmed, _, behind⟩
  · exact absurd torn whole
  · exact ⟨db, db', s, recorded, cut, unfinished, started, discarded_of_torn adopted here confirmed behind⟩

end Defragmenter.OutboundCrash
