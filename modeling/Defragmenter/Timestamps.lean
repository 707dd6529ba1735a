import Defragmenter.InboundHistory
import Defragmenter.Restart

/-! The two times of a message's row. It is created with the time of the call in
64 bits; whatever is counted afterwards goes through the statement's first
parameter, an `int`, so the last time is a maximum over what is left of the
times in 32 bits. -/
namespace Defragmenter.Timestamps
open Database InboundStore OutboundStore InboundHistory

/-- The row of this key was created at `t0`, and has counted these times since,
the last first. In between come calls for other keys, and those that leave the
row alone. -/
inductive Timed (limit : BlobLimit) : Key → Nat → List Nat → Db → Prop where
  /-- The first fragment of a message. -/
  | begun {db db' : Db} {f : InboundFragment} {ready : Option MsgReady} : f.tm < 2 ^ 64 →
      (rows db f.key).metaRow = none → dbInsertInboundFragment limit db f = .ok (db', ready) →
      Timed limit f.key f.tm [f.tm] db'
  /-- A later one, counted or not. -/
  | received {db db' : Db} {f : InboundFragment} {ready : Option MsgReady} {t0 : Nat} {ts : List Nat} :
      Timed limit f.key t0 ts db → f.tm < 2 ^ 64 → dbInsertInboundFragment limit db f = .ok (db', ready) →
      Timed limit f.key t0
        (if fragsDone (rows db' f.key) = fragsDone (rows db f.key) + 1 then f.tm :: ts else ts) db'
  | sent {db db' : Db} {friendNumber id tm numParts receipt : Nat} {type : Int} {data : List UInt8} :
      tm < 2 ^ 64 →
      dbInsertOutboundMessage limit db friendNumber type id tm numParts data receipt = .ok db' →
      Timed limit (outboundKey friendNumber id) tm [] db'
  | confirmed {db db' : Db} {friendNumber id partNo tm t0 : Nat} {ts : List Nat} :
      Timed limit (outboundKey friendNumber id) t0 ts db → tm < 2 ^ 64 →
      dbOutboundPartConfirmed db friendNumber id partNo tm = .ok db' →
      Timed limit (outboundKey friendNumber id) t0 (tm :: ts) db'
  | other {db db' : Db} {key : Key} {t0 : Nat} {ts : List Nat} : Timed limit key t0 ts db →
      (rows db' key).metaRow = (rows db key).metaRow → Timed limit key t0 ts db'

/-- The latest of the times. -/
def latest (t0 : Nat) (ts : List Nat) : Nat := ts.foldr max t0

/-- What the statements make of them. -/
def stamp (t0 : Nat) (ts : List Nat) : Int := (ts.map toInt32).foldr max (toInt64 t0)

/-- The row and both callbacks have the time of the creation and the latest of
all, as the callbacks' `uint64_t` arguments. -/
structure TimesRight (limit : BlobLimit) (db : Db) (key : Key) (t0 : Nat) (ts : List Nat) : Prop where
  row : ∃ row, (rows db key).metaRow = some row ∧ toSize row.timestampFirst = t0 ∧
    toSize row.timestampLast = latest t0 ts
  ready : ∀ before f r, f.key = key → dbInsertInboundFragment limit before f = .ok (db, some r) →
    toSize r.tm1 = t0 ∧ toSize r.tm2 = latest t0 ts
  pending : ∀ p ∈ stmtSelectFragmentedOutboundPending db, Restart.keyOf p = key →
    toSize p.tm1 = t0 ∧ toSize p.tm2 = latest t0 ts

/-- The times whose maximum survives: all of them below 2^31; none behind a
creation from 2^31 on; or, where the creation is negative as a column, none
whose lower half is not negative or is above that of the latest. -/
def Survives (t0 : Nat) (ts : List Nat) : Prop :=
  t0 < 2 ^ 31 ∧ (∀ t ∈ ts, t < 2 ^ 31) ∨
  2 ^ 31 ≤ t0 ∧ t0 < 2 ^ 63 ∧ (∀ t ∈ ts, t ≤ t0) ∨
  2 ^ 63 ≤ t0 ∧ (ts = [] ∨ 2 ^ 64 - 2 ^ 31 ≤ latest t0 ts ∧
    ∀ t ∈ ts, 2 ^ 31 ≤ t % 2 ^ 32 ∧ t % 2 ^ 32 ≤ latest t0 ts % 2 ^ 32)

instance {t0 : Nat} {ts : List Nat} : Decidable (Survives t0 ts) := inferInstanceAs (Decidable (_ ∨ _ ∨ _))

variable {limit : BlobLimit} {db db' : Db} {key : Key} {t0 t : Nat} {ts : List Nat} {f : InboundFragment}

/-! ## The maximum -/

theorem foldr_max_spec {α : Type*} [LinearOrder α] (a : α) (xs : List α) :
    a ≤ xs.foldr max a ∧ (∀ x ∈ xs, x ≤ xs.foldr max a) ∧ (xs.foldr max a = a ∨ xs.foldr max a ∈ xs) := by
  induction xs with
  | nil => exact ⟨le_refl a, by simp, .inl rfl⟩
  | cons x xs ih =>
    obtain ⟨first, all, attained⟩ := ih
    rw [List.foldr_cons]
    refine ⟨le_trans first (le_max_right _ _), fun y member => ?_, ?_⟩
    · rcases List.mem_cons.mp member with rfl | later
      · exact le_max_left _ _
      · exact le_trans (all y later) (le_max_right _ _)
    · rcases le_total x (xs.foldr max a) with le | ge
      · rw [max_eq_right le]
        exact attained.imp_right (List.mem_cons_of_mem x)
      · rw [max_eq_left ge]
        exact .inr List.mem_cons_self

theorem toInt64_eq (small : t < 2 ^ 64) : toInt64 t = if t < 2 ^ 63 then (t : Int) else t - 2 ^ 64 := by
  refine (Int.bmod_eq_iff (Nat.two_pow_pos 64)).mpr ?_
  split <;> exact ⟨by omega, by omega, by omega⟩

theorem toInt32_eq (t : Nat) :
    toInt32 t = if t % 2 ^ 32 < 2 ^ 31 then ((t % 2 ^ 32 : Nat) : Int) else (t % 2 ^ 32 : Nat) - 2 ^ 32 := by
  refine (Int.bmod_eq_iff (Nat.two_pow_pos 32)).mpr ?_
  split <;> exact ⟨by omega, by omega, by omega⟩

/-- The first time is read back as it was. -/
theorem toSize_toInt64 (small : t < 2 ^ 64) : toSize (toInt64 t) = t := by
  rw [toInt64_eq small, toSize]
  split <;> omega

/-- The maximum of the columns is bounded by both kinds of entries, and is one of them. -/
theorem stamp_spec (t0 : Nat) (ts : List Nat) : toInt64 t0 ≤ stamp t0 ts ∧
    (∀ t ∈ ts, toInt32 t ≤ stamp t0 ts) ∧ (stamp t0 ts = toInt64 t0 ∨ ∃ t ∈ ts, stamp t0 ts = toInt32 t) := by
  obtain ⟨first, all, attained⟩ := foldr_max_spec (toInt64 t0) (ts.map toInt32)
  refine ⟨first, fun t member => all _ (List.mem_map_of_mem member), attained.imp_right fun member => ?_⟩
  obtain ⟨t, inside, same⟩ := List.mem_map.mp member
  exact ⟨t, inside, same.symm⟩

theorem latest_spec (t0 : Nat) (ts : List Nat) :
    t0 ≤ latest t0 ts ∧ (∀ t ∈ ts, t ≤ latest t0 ts) ∧ (latest t0 ts = t0 ∨ latest t0 ts ∈ ts) :=
  foldr_max_spec t0 ts

theorem toInt32_bounds (t : Nat) : -2 ^ 31 ≤ toInt32 t ∧ toInt32 t < 2 ^ 31 := by
  rw [toInt32_eq]
  split <;> omega

/-- A creation below 2^31: every later time must be too. -/
theorem stamp_right_early (early : t0 < 2 ^ 31) :
    toSize (stamp t0 ts) = latest t0 ts ↔ ∀ t ∈ ts, t < 2 ^ 31 := by
  obtain ⟨first, below, attained⟩ := stamp_spec t0 ts
  obtain ⟨firstN, allN, attainedN⟩ := latest_spec t0 ts
  rw [toInt64_eq (by omega), if_pos (by omega)] at first attained
  have upper : stamp t0 ts < 2 ^ 31 := by
    rcases attained with same | ⟨t, _, same⟩
    · omega
    · have := toInt32_bounds t
      omega
  have read : toSize (stamp t0 ts) = (stamp t0 ts).toNat := by
    unfold toSize
    omega
  rw [read]
  constructor
  · intro right t member
    have := allN t member
    omega
  · intro smalls
    have kept : ∀ t ∈ ts, toInt32 t = t := fun t member => toInt32_of_lt (smalls t member)
    have le : stamp t0 ts ≤ latest t0 ts := by
      rcases attained with same | ⟨t, member, same⟩
      · omega
      · have := kept t member
        have := allN t member
        omega
    have ge : (latest t0 ts : Int) ≤ stamp t0 ts := by
      rcases attainedN with same | member
      · omega
      · have := kept _ member
        have := below _ member
        omega
    omega

/-- A creation from 2^31 on: no later time is seen. -/
theorem stamp_right_late (late : 2 ^ 31 ≤ t0) (positive : t0 < 2 ^ 63) :
    toSize (stamp t0 ts) = latest t0 ts ↔ ∀ t ∈ ts, t ≤ t0 := by
  obtain ⟨first, below, attained⟩ := stamp_spec t0 ts
  obtain ⟨firstN, allN, attainedN⟩ := latest_spec t0 ts
  rw [toInt64_eq (by omega), if_pos positive] at first attained
  have same : stamp t0 ts = t0 := by
    rcases attained with same | ⟨t, _, same⟩
    · exact same
    · have := toInt32_bounds t
      omega
  rw [same, toSize_of_lt (by omega)]
  constructor
  · intro right t member
    have := allN t member
    omega
  · intro earlier
    rcases attainedN with same | member
    · exact same.symm
    · exact Nat.le_antisymm firstN (earlier _ member)

/-- A creation that is negative as a column. -/
theorem stamp_right_negative (small : t0 < 2 ^ 64) (negative : 2 ^ 63 ≤ t0) (smalls : ∀ t ∈ ts, t < 2 ^ 64) :
    toSize (stamp t0 ts) = latest t0 ts ↔ ts = [] ∨ 2 ^ 64 - 2 ^ 31 ≤ latest t0 ts ∧
      ∀ t ∈ ts, 2 ^ 31 ≤ t % 2 ^ 32 ∧ t % 2 ^ 32 ≤ latest t0 ts % 2 ^ 32 := by
  obtain ⟨first, below, attained⟩ := stamp_spec t0 ts
  obtain ⟨firstN, allN, attainedN⟩ := latest_spec t0 ts
  have bound : latest t0 ts < 2 ^ 64 := by
    rcases attainedN with same | member
    · omega
    · exact smalls _ member
  rw [toInt64_eq small, if_neg (by omega)] at first attained
  have upper : stamp t0 ts < 2 ^ 31 := by
    rcases attained with same | ⟨t, _, same⟩
    · omega
    · have := toInt32_bounds t
      omega
  cases ts with
  | nil =>
    refine ⟨fun _ => .inl rfl, fun _ => ?_⟩
    rw [stamp, latest, List.map_nil, List.foldr_nil, List.foldr_nil, toSize_toInt64 small]
  | cons u rest =>
    constructor
    · intro right
      have negativeStamp : stamp t0 (u :: rest) < 0 ∧ stamp t0 (u :: rest) = latest t0 (u :: rest) - 2 ^ 64 := by
        unfold toSize at right
        omega
      have least := (toInt32_bounds u).1
      have ofFirst := below u List.mem_cons_self
      refine .inr ⟨by omega, fun t member => ?_⟩
      have le := below t member
      rw [toInt32_eq] at le
      split at le <;> omega
    · rintro (none | ⟨large, halves⟩)
      · cases none
      · have le : stamp t0 (u :: rest) ≤ latest t0 (u :: rest) - 2 ^ 64 := by
          rcases attained with same | ⟨t, member, same⟩
          · omega
          · have half := halves t member
            rw [toInt32_eq, if_neg (by omega)] at same
            omega
        have ge : (latest t0 (u :: rest) : Int) - 2 ^ 64 ≤ stamp t0 (u :: rest) := by
          rcases attainedN with same | member
          · omega
          · have ofLatest := below _ member
            rw [toInt32_eq, if_neg (by have := halves _ member; omega)] at ofLatest
            omega
        unfold toSize
        omega

/-- The maximum of the columns is that of the times exactly in these cases. -/
theorem stamp_right_iff (small : t0 < 2 ^ 64) (smalls : ∀ t ∈ ts, t < 2 ^ 64) :
    toSize (stamp t0 ts) = latest t0 ts ↔ Survives t0 ts := by
  unfold Survives
  rcases Nat.lt_or_ge t0 (2 ^ 31) with early | late
  · rw [stamp_right_early early]
    constructor
    · exact fun all => .inl ⟨early, all⟩
    · rintro (⟨_, all⟩ | ⟨late, _⟩ | ⟨late, _⟩)
      · exact all
      · omega
      · omega
  · rcases Nat.lt_or_ge t0 (2 ^ 63) with positive | negative
    · rw [stamp_right_late late positive]
      constructor
      · exact fun all => .inr (.inl ⟨late, positive, all⟩)
      · rintro (⟨early, _⟩ | ⟨_, _, all⟩ | ⟨negative, _⟩)
        · omega
        · exact all
        · omega
    · rw [stamp_right_negative small negative smalls]
      constructor
      · exact fun halves => .inr (.inr ⟨negative, halves⟩)
      · rintro (⟨early, _⟩ | ⟨_, positive, _⟩ | ⟨_, halves⟩)
        · omega
        · omega
        · exact halves

/-! ## The row -/

/-- A fragment that is counted updates the row it finds, or the one it has made. -/
theorem counts_of_receive {r r' : Rows} {ready : Option MsgReady} (step : receive limit f r = .ok (r', ready))
    (counts : fragsDone r' = fragsDone r + 1) : ∃ m, (r.metaRow = some m ∨ r.metaRow = none ∧ m = newMeta f) ∧
      r'.metaRow = some (counted f m) := by
  rcases receive_cases step with ⟨_, _, rfl, _⟩ | ⟨m, d, found, filled⟩
  · omega
  · have row : r.metaRow = some m ∨ r.metaRow = none ∧ m = newMeta f := by
      rcases found with rfl | ⟨rfl, _, new, _⟩
      · exact .inl rfl
      · exact .inr ⟨rfl, new⟩
    rcases deposit_cases filled with ⟨b, taken, nonzero, rfl, _⟩ | ⟨_, _, ⟨_, rfl, _⟩ | ⟨_, rfl, _⟩⟩
    · rcases found with rfl | ⟨rfl, _, rfl, rfl⟩
      · simp [fragsDone] at counts
      · simp [fragsDone, newMeta] at counts
    · exact ⟨m, row, rfl⟩
    · exact ⟨m, row, rfl⟩

/-- One that is not leaves a row as it was. -/
theorem keeps_of_receive {r r' : Rows} {ready : Option MsgReady} {m : MetaRow}
    (step : receive limit f r = .ok (r', ready)) (known : r.metaRow = some m)
    (ignored : fragsDone r' ≠ fragsDone r + 1) : r'.metaRow = some m := by
  rcases receive_cases step with ⟨_, _, rfl, _⟩ | ⟨m', d, found, filled⟩
  · exact known
  · rcases found with rfl | ⟨rfl, _⟩
    · obtain rfl : m' = m := by simpa using known
      rcases deposit_cases filled with ⟨_, _, _, rfl, _⟩ | ⟨_, _, ⟨_, rfl, _⟩ | ⟨_, rfl, _⟩⟩
      · rfl
      · simp [fragsDone, counted] at ignored
      · simp [fragsDone, counted] at ignored
    · cases known

/-- The first fragment of a message is counted. -/
theorem begins_of_receive {r r' : Rows} {ready : Option MsgReady} (step : receive limit f r = .ok (r', ready))
    (unknown : r.metaRow = none) : r'.metaRow = some (counted f (newMeta f)) := by
  rcases receive_cases step with ⟨known, _⟩ | ⟨m, d, found, filled⟩
  · simp [unknown] at known
  · rcases found with rfl | ⟨rfl, _, rfl, rfl⟩
    · cases unknown
    · rcases deposit_cases filled with ⟨b, taken, nonzero, _⟩ | ⟨_, _, ⟨_, rfl, _⟩ | ⟨_, rfl, _⟩⟩
      · exact absurd (List.eq_of_mem_replicate (List.mem_of_getElem? taken)) nonzero
      · rfl
      · rfl

theorem stamp_cons : stamp t0 (t :: ts) = max (stamp t0 ts) (toInt32 t) :=
  max_comm _ _

/-- The columns of the row, whatever the times. -/
theorem timed_row (timed : Timed limit key t0 ts db) : t0 < 2 ^ 64 ∧ (∀ t ∈ ts, t < 2 ^ 64) ∧
    ∃ row, (rows db key).metaRow = some row ∧ row.timestampFirst = toInt64 t0 ∧
      row.timestampLast = stamp t0 ts := by
  induction timed with
  | @begun db db' f ready small unknown ran =>
    have row := begins_of_receive (receive_of_insert ran).1 unknown
    refine ⟨small, by simpa using small, _, row, ?_, ?_⟩
    · simp only [counted, newMeta]
    · rw [stamp_cons, stamp, List.map_nil, List.foldr_nil, counted, newMeta]
  | @received db db' f ready t0 ts _ small ran ih =>
    obtain ⟨created, smalls, row, found, first, last⟩ := ih
    have step := (receive_of_insert ran).1
    refine ⟨created, ?_, ?_⟩
    · split
      · exact fun t member => by
          rcases List.mem_cons.mp member with rfl | before
          · exact small
          · exact smalls t before
      · exact smalls
    · by_cases counts : fragsDone (rows db' f.key) = fragsDone (rows db f.key) + 1
      · obtain ⟨m, known | ⟨unknown, _⟩, after⟩ := counts_of_receive step counts
        · obtain rfl : m = row := Option.some.inj (known.symm.trans found)
          rw [if_pos counts, stamp_cons, ← last]
          refine ⟨counted f m, after, ?_, ?_⟩
          · rw [counted, first]
          · rw [counted]
        · rw [found] at unknown
          cases unknown
      · rw [if_neg counts]
        exact ⟨row, keeps_of_receive step found counts, first, last⟩
  | @sent db db' friendNumber id tm numParts receipt type data small ran =>
    have inserted := (rows_inserted ran).1
    refine ⟨small, by simp, ⟨type, toInt64 tm, toInt64 tm, 0, toInt32 numParts⟩, ?_, ?_, ?_⟩
    · rw [inserted, newRows]
    · dsimp only
    · rw [stamp, List.map_nil, List.foldr_nil]
  | @confirmed db db' friendNumber id partNo tm t0 ts _ small ran ih =>
    obtain ⟨created, smalls, row, found, first, last⟩ := ih
    obtain ⟨row', before, after⟩ := metaRow_confirmed ran
    obtain rfl : row' = row := Option.some.inj (before.symm.trans found)
    refine ⟨created, fun t member => ?_, _, after, first, ?_⟩
    · rcases List.mem_cons.mp member with rfl | earlier
      · exact small
      · exact smalls t earlier
    · rw [stamp_cons, last]
  | other _ same ih =>
    rw [same]
    exact ih

/-- The message-ready callback has the times of the row. -/
theorem ready_times {before : Db} {r : MsgReady} (ran : dbInsertInboundFragment limit before f = .ok (db, some r)) :
    ∃ row, (rows db f.key).metaRow = some row ∧ r.tm1 = row.timestampFirst ∧ r.tm2 = row.timestampLast := by
  have step := (receive_of_insert ran).1
  generalize rows db f.key = after at step
  rcases receive_cases step with ⟨_, _, _, silent⟩ | ⟨m, d, _, filled⟩
  · cases silent
  · rcases deposit_cases filled with ⟨_, _, _, _, silent⟩ | ⟨_, _, ⟨_, rfl, called⟩ | ⟨_, _, silent⟩⟩
    · cases silent
    · cases called
      refine ⟨counted f m, rfl, ?_, ?_⟩
      · rw [counted]
      · rw [counted]
    · cases silent

/-- So has the callback for pending messages. -/
theorem pending_times {p : PendingSent} (member : p ∈ stmtSelectFragmentedOutboundPending db) :
    ∃ row, (rows db (Restart.keyOf p)).metaRow = some row ∧ p.tm1 = row.timestampFirst ∧
      p.tm2 = row.timestampLast := by
  obtain ⟨row, data, here, shape⟩ := Restart.mem_pending.mp member
  rw [here, shape]
  exact ⟨row, rfl, rfl, rfl⟩

/-- Both callbacks take their times from the row, so all depends on its columns. -/
theorem timesRight_iff {row : MetaRow} (here : (rows db key).metaRow = some row) :
    TimesRight limit db key t0 ts ↔ toSize row.timestampFirst = t0 ∧ toSize row.timestampLast = latest t0 ts := by
  constructor
  · rintro ⟨⟨other, found, first, last⟩, _, _⟩
    obtain rfl : row = other := Option.some.inj (here.symm.trans found)
    exact ⟨first, last⟩
  · rintro ⟨first, last⟩
    refine ⟨⟨row, here, first, last⟩, fun before f r same ran => ?_, fun p member same => ?_⟩
    · subst same
      obtain ⟨other, found, tm1, tm2⟩ := ready_times ran
      obtain rfl : row = other := Option.some.inj (here.symm.trans found)
      rw [tm1, tm2]
      exact ⟨first, last⟩
    · subst same
      obtain ⟨other, found, tm1, tm2⟩ := pending_times member
      obtain rfl : row = other := Option.some.inj (here.symm.trans found)
      rw [tm1, tm2]
      exact ⟨first, last⟩

/-- The times are the right ones exactly where the casts keep their maximum. -/
theorem times_right_iff (timed : Timed limit key t0 ts db) :
    TimesRight limit db key t0 ts ↔ Survives t0 ts := by
  obtain ⟨created, smalls, row, here, first, last⟩ := timed_row timed
  rw [timesRight_iff here, first, last, stamp_right_iff created smalls]
  exact and_iff_right (toSize_toInt64 created)

/-- A message sent at one time and confirmed at another. -/
theorem timed_sent_confirmed {a b : Nat} (first : a < 2 ^ 64) (second : b < 2 ^ 64) :
    ∃ db, Timed defaultLimit (outboundKey 1 1) a [b] db := by
  have inserted : dbInsertOutboundMessage defaultLimit {} 1 0 1 a 1 [7] 1 = .ok _ :=
    insert_ok_iff.mpr ⟨rfl, by decide, rfl⟩
  have here := (rows_inserted inserted).1
  obtain ⟨db, confirmed, _⟩ := @rows_partConfirmed _ 1 1 b 1 _ _ _ here rfl (by decide) (by decide)
    (by decide)
  exact ⟨db, .confirmed (.sent first inserted) second confirmed⟩

/-- In the first days of 1970 they come out right. -/
theorem times_right_early : ∃ db, Timed defaultLimit (outboundKey 1 1) 1000 [2000] db ∧
    TimesRight defaultLimit db (outboundKey 1 1) 1000 [2000] := by
  obtain ⟨db, timed⟩ := @timed_sent_confirmed 1000 2000 (by decide) (by decide)
  exact ⟨db, timed, (times_right_iff timed).mpr (by decide)⟩

/-- Sent and confirmed in July 2017, it was last seen when it was sent. -/
theorem confirmation_time_lost : ¬ ∀ limit key t0 ts db, Timed limit key t0 ts db →
    TimesRight limit db key t0 ts := by
  intro holds
  obtain ⟨db, timed⟩ := @timed_sent_confirmed 1500000000000 1500000005000 (by decide) (by decide)
  obtain ⟨⟨row, found, _, right⟩, _, _⟩ := holds _ _ _ _ _ timed
  obtain ⟨_, _, row', found', _, last⟩ := timed_row timed
  obtain rfl : row = row' := Option.some.inj (found.symm.trans found')
  rw [last] at right
  revert right
  decide

end Defragmenter.Timestamps
