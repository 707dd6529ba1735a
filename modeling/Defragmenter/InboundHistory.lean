import Defragmenter.InboundStore
import Defragmenter.Receiver

/-! Runs of the inbound store. A store is reached by any calls of
`dbInsertInboundFragment`, interleaved with whatever the sending half does to
its own rows; `History` also remembers which calls stored their fragment. What
such a run does to one key is a run of `receive`, and for a key that only its
own letter reaches the stored bytes are a mosaic of the letter's pieces. -/
namespace Defragmenter.InboundHistory
open Database InboundStore Receiver Tiling Marker

/-- `frags_done` of a key, zero before its meta row exists. -/
def fragsDone (r : Rows) : Int := (r.metaRow.map (·.fragsDone)).getD 0

/-- One call of `dbInsertInboundFragment`: it stored the fragment exactly if it
counted it. -/
structure Arrival where
  fragment : InboundFragment
  stored : Bool

inductive History (limit : BlobLimit) : List Arrival → Db → Prop where
  | fresh : History limit [] {}
  | received {past : List Arrival} {db db' : Db} {f : InboundFragment} {ready : Option MsgReady} :
      History limit past db → dbInsertInboundFragment limit db f = .ok (db', ready) →
      History limit (⟨f, fragsDone (rows db' f.key) == fragsDone (rows db f.key) + 1⟩ :: past) db'
  | sending {past : List Arrival} {db db' : Db} : History limit past db →
      (∀ key, key.outbound = false → rows db' key = rows db key) → History limit past db'

variable {limit : BlobLimit} {past : List Arrival} {db : Db} {f : InboundFragment}
  {r r' : Rows} {ready : Option MsgReady}

/-- What holds of one key's rows in every history: it holds of no rows, calls
for other keys keep it, and `receive` keeps it. -/
theorem History.rows_induction {motive : List Arrival → Rows → Prop} {key : Key}
    (inbound : key.outbound = false) (fresh : motive [] {})
    (other : ∀ {past r} (a : Arrival), a.fragment.key ≠ key → motive past r → motive (a :: past) r)
    (received : ∀ {past r r' f ready}, f.key = key → motive past r →
      receive limit f r = .ok (r', ready) →
      motive (⟨f, fragsDone r' == fragsDone r + 1⟩ :: past) r')
    (history : History limit past db) : motive past (rows db key) := by
  induction history with
  | fresh => exact fresh
  | @received past db db' f ready _ ran ih =>
    obtain ⟨step, agree⟩ := receive_of_insert ran
    by_cases same : f.key = key
    · subst same
      exact received rfl ih step
    · rw [agree key (Ne.symm same)]
      exact other _ same ih
  | sending _ frame ih =>
    rw [frame key inbound]
    exact ih

/-! ## One call -/

/-- Every way a call on the rows of its key can return. -/
theorem receive_cases (step : receive limit f r = .ok (r', ready)) :
    (r.metaRow.isSome ∧ r.dataRow = none ∧ r' = r ∧ ready = none) ∨
    ∃ m d, (r = ⟨some m, some d⟩ ∨ (r = {} ∧ f.sz ≤ limit.val ∧ m = newMeta f ∧
        d = { message := List.replicate f.sz 0 })) ∧
      deposit f m d = .ok (r', ready) := by
  obtain ⟨metaRow, dataRow⟩ := r
  cases metaRow with
  | some m =>
    cases dataRow with
    | none =>
      cases step
      exact .inl ⟨rfl, rfl, rfl, rfl⟩
    | some d => exact .inr ⟨m, d, .inl rfl, step⟩
  | none =>
    cases dataRow with
    | some d => cases step
    | none =>
      simp only [receive] at step
      split at step
      · cases step
      · exact .inr ⟨_, _, .inr ⟨rfl, Nat.le_of_not_lt ‹_›, rfl, rfl⟩, step⟩

/-- The blob with the fragment's payload written in its place. -/
def written (f : InboundFragment) (d : DataRow) : List UInt8 :=
  overwrite d.message f.off (f.data.take (f.length % 2 ^ 32))

/-- Every way a fragment for an unfinished message can fare. -/
theorem deposit_cases {m : MetaRow} {d : DataRow} (step : deposit f m d = .ok (r', ready)) :
    (∃ b, d.message[f.off]? = some b ∧ b ≠ 0 ∧ r' = ⟨some m, some d⟩ ∧ ready = none) ∨
    (d.message[f.off]? = some 0 ∧ f.off + f.length % 2 ^ 32 ≤ d.message.length ∧
      ((counted f m).fragsDone = (counted f m).fragsNum ∧ r' = ⟨some (counted f m), none⟩ ∧
          ready = some ⟨(counted f m).timestampFirst, (counted f m).timestampLast, f.friendNumber, f.type,
            written f d⟩ ∨
        (counted f m).fragsDone ≠ (counted f m).fragsNum ∧
          r' = ⟨some (counted f m), some { d with message := written f d }⟩ ∧ ready = none)) := by
  unfold deposit at step
  cases probe : d.message[f.off]? with
  | none => simp [probe] at step
  | some b =>
    simp only [probe] at step
    by_cases blank : b = 0
    · subst blank
      simp only [ne_eq, not_true_eq_false, ↓reduceIte] at step
      by_cases short : d.message.length < f.off + f.length % 2 ^ 32
      · simp only [short, ↓reduceIte, reduceCtorEq] at step
      · simp only [short, ↓reduceIte] at step
        have fits : f.off + f.length % 2 ^ 32 ≤ d.message.length := by omega
        refine .inr ⟨rfl, fits, ?_⟩
        by_cases complete : (counted f m).fragsDone = (counted f m).fragsNum
        · simp only [complete, ↓reduceIte] at step
          cases step
          exact .inl ⟨complete, rfl, rfl⟩
        · simp only [complete, ↓reduceIte] at step
          cases step
          exact .inr ⟨complete, rfl, rfl⟩
    · simp only [ne_eq, blank, not_false_eq_true, ↓reduceIte] at step
      cases step
      exact .inl ⟨b, rfl, blank, rfl, rfl⟩

/-- A fragment for an unfinished message is processed exactly if its place starts
inside the blob and is taken or has room for it. -/
theorem deposit_returns_iff {m : MetaRow} {d : DataRow} :
    (∃ result, deposit f m d = .ok result) ↔ f.off < d.message.length ∧
      (d.message[f.off]? ≠ some 0 ∨ f.off + f.length % 2 ^ 32 ≤ d.message.length) := by
  constructor
  · rintro ⟨⟨r, ready⟩, step⟩
    rcases deposit_cases step with ⟨b, found, nonzero, _⟩ | ⟨found, fits, _⟩
    · refine ⟨(List.getElem?_eq_some_iff.mp found).1, .inl fun blank => ?_⟩
      rw [found] at blank
      exact nonzero (Option.some.inj blank)
    · exact ⟨(List.getElem?_eq_some_iff.mp found).1, .inr fits⟩
  · rintro ⟨inside, open_⟩
    have probe : d.message[f.off]? = some d.message[f.off] := List.getElem?_eq_getElem inside
    unfold deposit
    by_cases blank : d.message[f.off] = 0
    · have fits : ¬ d.message.length < f.off + f.length % 2 ^ 32 := by
        rcases open_ with taken | fits
        · exact absurd (probe.trans (congrArg some blank)) taken
        · omega
      simp only [probe, blank, ne_eq, not_true_eq_false, fits, ↓reduceIte]
      split <;> exact ⟨_, rfl⟩
    · simp [probe, blank]

theorem written_length {d : DataRow} (fits : f.off + f.length % 2 ^ 32 ≤ d.message.length) :
    (written f d).length = d.message.length := by
  have taken := List.length_take_le (f.length % 2 ^ 32) f.data
  exact overwrite_length (by omega)

/-- A key that has seen a fragment has a meta row from then on. -/
theorem receive_metaRow (step : receive limit f r = .ok (r', ready)) : r'.metaRow.isSome := by
  rcases receive_cases step with ⟨known, _, rfl, _⟩ | ⟨m, d, _, filled⟩
  · exact known
  · rcases deposit_cases filled with ⟨_, _, _, rfl, _⟩ | ⟨_, _, ⟨_, rfl, _⟩ | ⟨_, rfl, _⟩⟩ <;> rfl

/-- In every store there is no data row without its meta row. -/
theorem dataRow_tracked (history : History limit past db) (key : Key)
    (inbound : key.outbound = false) :
    (rows db key).dataRow.isSome → (rows db key).metaRow.isSome := by
  refine history.rows_induction (motive := fun _ r => r.dataRow.isSome → r.metaRow.isSome) inbound
    (by simp) (fun _ _ held => held) ?_
  intro _ _ _ _ _ _ _ step _
  exact receive_metaRow step

/-! ## The fragments of one letter -/

/-- The call that `processInFragment` makes for fragment `k` of the letter. -/
def Delivers (l : Letter) (k : Nat) (f : InboundFragment) : Prop :=
  ∃ m tm fields, Carries l k m ∧ markerParse m.memory m.message.length = some fields ∧
    f = inFragment m tm fields

theorem Delivers.eq {l : Letter} {k : Nat} (delivers : Delivers l k f) :
    k < l.parts ∧ ∃ type tm, f = l.inbound k type tm := by
  obtain ⟨m, tm, fields, carried, parsed, rfl⟩ := delivers
  obtain ⟨fields', parsed', arguments⟩ := inFragment_carried carried
  rw [parsed] at parsed'
  cases parsed'
  exact ⟨(carries_iff.mp carried).2.1, m.type, tm, arguments tm⟩

theorem Delivers.key {l : Letter} {k : Nat} (delivers : Delivers l k f) : f.key = l.key := by
  obtain ⟨_, type, tm, rfl⟩ := delivers.eq
  rfl

/-- Fragment `k` of the letter in the packet that carries it. -/
theorem delivers_inbound {l : Letter} {k : Nat} (inside : k < l.parts) (type : Int) (tm : Nat) :
    Delivers l k (l.inbound k type tm) := by
  have carried := carries_packet inside type
  obtain ⟨fields, parsed, arguments⟩ := inFragment_carried carried
  exact ⟨_, tm, fields, carried, parsed, (arguments tm).symm⟩

end Defragmenter.InboundHistory
