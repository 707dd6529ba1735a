import Defragmenter.InboundHistory

/-! Whether a fragment already stored is recognised when it comes again. The
store asks one byte: the first of the fragment's place in the blob. A stored
fragment whose first payload byte is zero is taken for a new one. -/
namespace Defragmenter.Redelivery
open Database InboundStore InboundHistory Receiver Tiling

/-- The call returns without the callback and leaves `frags_done`,
`frags_num`, the stored bytes and the rows of its key as they were. -/
def Unchanged (limit : BlobLimit) (db : Db) (f : InboundFragment) : Prop :=
  ∃ db', dbInsertInboundFragment limit db f = .ok (db', none) ∧
    (rows db' f.key).metaRow.map (fun m => (m.fragsDone, m.fragsNum)) =
      (rows db f.key).metaRow.map (fun m => (m.fragsDone, m.fragsNum)) ∧
    (rows db' f.key).dataRow.map (·.message) = (rows db f.key).dataRow.map (·.message)

/-- Only fragments of this letter have come in under its key. -/
def OnlyOwn (l : Letter) (past : List Arrival) : Prop :=
  ∀ a ∈ past, a.fragment.key = l.key → ∃ k, Delivers l k a.fragment

variable {limit : BlobLimit} {past : List Arrival} {db : Db} {f : InboundFragment}
  {r r' : Rows} {ready : Option MsgReady}

/-- A blob never changes its size while it lives, and only a call that found
its place inside it is counted. -/
theorem receive_blob {m : MetaRow} (known : r.metaRow = some m)
    (step : receive limit f r = .ok (r', ready)) {d' : DataRow} (left : r'.dataRow = some d') :
    ∃ d, r.dataRow = some d ∧ d'.message.length = d.message.length := by
  rcases receive_cases step with ⟨_, none, rfl, _⟩ | ⟨m', d, (rfl | ⟨rfl, _⟩), filled⟩
  · rw [none] at left
    cases left
  · rcases deposit_cases filled with ⟨_, _, _, rfl, _⟩ | ⟨_, fits, ⟨_, rfl, _⟩ | ⟨_, rfl, _⟩⟩
    · cases left
      exact ⟨_, rfl, rfl⟩
    · cases left
    · cases left
      exact ⟨d, rfl, written_length fits⟩
  · cases known

/-- A call that counted found its place blank and inside the blob. -/
theorem receive_counted (step : receive limit f r = .ok (r', ready))
    (stored : fragsDone r' = fragsDone r + 1) {d' : DataRow} (left : r'.dataRow = some d') :
    ∃ d, (r.dataRow = some d ∨ r = {} ∧ d = { message := List.replicate f.sz 0 }) ∧
      d.message[f.off]? = some 0 ∧ f.off + f.length % 2 ^ 32 ≤ d.message.length ∧
      d'.message = written f d := by
  rcases receive_cases step with ⟨_, _, rfl, _⟩ | ⟨m, d, origin, filled⟩
  · omega
  · have before : fragsDone r = m.fragsDone := by
      rcases origin with rfl | ⟨rfl, _, rfl, _⟩ <;> rfl
    have origin : r.dataRow = some d ∨ r = {} ∧ d = { message := List.replicate f.sz 0 } := by
      rcases origin with rfl | ⟨rfl, _, _, rfl⟩
      · exact .inl rfl
      · exact .inr ⟨rfl, rfl⟩
    rcases deposit_cases filled with ⟨_, _, _, rfl, _⟩ | ⟨blank, fits, ⟨_, rfl, _⟩ | ⟨_, rfl, _⟩⟩
    · change m.fragsDone = _ at stored
      omega
    · cases left
    · cases left
      exact ⟨d, origin, blank, fits, rfl⟩

/-- Once a fragment is stored its key keeps a meta row, and while the message
is incomplete its place is inside the blob. -/
theorem stored_place (history : History limit past db) (stored : ⟨f, true⟩ ∈ past)
    (inbound : f.key.outbound = false) :
    (rows db f.key).metaRow.isSome ∧
      ∀ d, (rows db f.key).dataRow = some d → f.off < d.message.length := by
  refine history.rows_induction (motive := fun past r => ⟨f, true⟩ ∈ past → r.metaRow.isSome ∧
    ∀ d, r.dataRow = some d → f.off < d.message.length) inbound (by simp) ?_ ?_ stored
  · intro past r a different ih member
    rcases List.mem_cons.mp member with rfl | earlier
    · exact absurd rfl different
    · exact ih earlier
  · intro past r r' g ready _ ih step member
    refine ⟨receive_metaRow step, fun d' left => ?_⟩
    rcases List.mem_cons.mp member with here | earlier
    · obtain rfl : f = g := congrArg Arrival.fragment here
      have counts : fragsDone r' = fragsDone r + 1 := by
        simpa using (congrArg Arrival.stored here).symm
      obtain ⟨d, _, blank, fits, message⟩ := receive_counted step counts left
      have inside := (List.getElem?_eq_some_iff.mp blank).1
      rw [message, written_length fits]
      exact inside
    · obtain ⟨known, place⟩ := ih earlier
      obtain ⟨m, known⟩ := Option.isSome_iff_exists.mp known
      obtain ⟨d, held, same⟩ := receive_blob known step left
      have := place d held
      omega

/-- Only the fragment's own byte decides what a redelivery does. -/
theorem unchanged_iff_byte (limit : BlobLimit) {m : MetaRow} (known : (rows db f.key).metaRow = some m)
    (place : ∀ d, (rows db f.key).dataRow = some d → f.off < d.message.length) :
    Unchanged limit db f ↔
      ∀ d, (rows db f.key).dataRow = some d → d.message[f.off]? ≠ some 0 := by
  constructor
  · rintro ⟨db', ran, sameMeta, _⟩ d held blank
    have step := (receive_of_insert ran).1
    have here : rows db f.key = ⟨some m, some d⟩ := by
      rw [← known, ← held]
    rw [here] at step sameMeta
    rcases deposit_cases step with ⟨b, found, nonzero, _⟩ | ⟨_, _, ⟨_, after, _⟩ | ⟨_, after, _⟩⟩
    · rw [blank] at found
      exact nonzero (Option.some.inj found).symm
    · simp [after, counted] at sameMeta
    · simp [after, counted] at sameMeta
  · intro nonzero
    cases held : (rows db f.key).dataRow with
    | none =>
      have here : rows db f.key = ⟨some m, none⟩ := by
        rw [← known, ← held]
      have step : receive limit f (rows db f.key) = .ok (⟨some m, none⟩, none) := by
        rw [here]
        rfl
      obtain ⟨db', ran, _, after⟩ := insert_of_receive step
      exact ⟨db', ran, by rw [after, known], by rw [after, held]⟩
    | some d =>
      have here : rows db f.key = ⟨some m, some d⟩ := by
        rw [← known, ← held]
      have inside := place d held
      have byte : d.message[f.off]? = some d.message[f.off] := List.getElem?_eq_getElem inside
      have different : d.message[f.off] ≠ 0 := fun blank =>
        nonzero d held (by rw [byte, blank])
      have step : receive limit f (rows db f.key) = .ok (⟨some m, some d⟩, none) := by
        simp only [here, receive, deposit, byte, ne_eq, different, not_false_eq_true, ↓reduceIte]
      obtain ⟨db', ran, _, after⟩ := insert_of_receive step
      exact ⟨db', ran, by rw [after, known], by rw [after, held]⟩

/-- A call for one of the letter's own fragments puts its piece into the
mosaic; where it takes the fragment for a duplicate, the piece is there. -/
theorem deposit_own {l : Letter} {k : Nat} {type : Int} {tm : Nat} {m : MetaRow} {d d' : DataRow}
    {got : Finset Nat} (inside : k < l.parts) (blob : d.message = l.stored got)
    (step : deposit (l.inbound k type tm) m d = .ok (r', ready)) (left : r'.dataRow = some d') :
    d'.message = l.stored (insert k got) := by
  rcases deposit_cases step with ⟨b, found, nonzero, rfl, _⟩ | ⟨_, _, ⟨_, rfl, _⟩ | ⟨_, rfl, _⟩⟩
  · have head := l.stored_head got inside
    rw [← blob] at head
    have byte := found.symm.trans head
    have member : k ∈ got := by
      by_contra missing
      rw [if_neg missing] at byte
      exact nonzero (Option.some.inj byte)
    rw [Finset.insert_eq_of_mem member, ← blob]
    exact congrArg DataRow.message (Option.some.inj left).symm
  · cases left
  · rw [← Option.some.inj left, ← l.stored_write got inside type tm, ← blob]
    rfl

/-- While a letter is incomplete and only its own fragments have come in, the
blob shows exactly the pieces stored so far. -/
theorem own_blob {l : Letter} (history : History limit past db) (own : OnlyOwn l past) :
    ∃ got : Finset Nat, ((rows db l.key).metaRow = none → got = ∅) ∧
      (∀ a ∈ past, a.stored = true → ∀ k, Delivers l k a.fragment → k ∈ got) ∧
      ∀ d, (rows db l.key).dataRow = some d → d.message = l.stored got := by
  refine history.rows_induction (motive := fun past r => OnlyOwn l past →
    ∃ got : Finset Nat, (r.metaRow = none → got = ∅) ∧
      (∀ a ∈ past, a.stored = true → ∀ k, Delivers l k a.fragment → k ∈ got) ∧
      ∀ d, r.dataRow = some d → d.message = l.stored got)
    (show l.key.outbound = false from rfl)
    (fun _ => ⟨∅, by simp, by simp, by simp⟩) ?_ ?_ own
  · intro past r a different ih own
    obtain ⟨got, empty, covered, blob⟩ := ih fun b member => own b (List.mem_cons_of_mem a member)
    refine ⟨got, empty, fun b member stored k delivers => ?_, blob⟩
    rcases List.mem_cons.mp member with rfl | earlier
    · exact absurd delivers.key different
    · exact covered b earlier stored k delivers
  · intro past r r' f ready same ih step own
    obtain ⟨got, empty, covered, blob⟩ := ih fun b member => own b (List.mem_cons_of_mem _ member)
    obtain ⟨k, delivers⟩ := own _ List.mem_cons_self same
    obtain ⟨inside, type, tm, rfl⟩ := delivers.eq
    have only : ∀ k', Delivers l k' (l.inbound k type tm) → k' = k := by
      intro k' delivers'
      obtain ⟨_, type', tm', equal⟩ := delivers'.eq
      exact (Nat.succ.inj (congrArg InboundFragment.partNo equal)).symm
    refine ⟨insert k got, fun none => ?_, fun b member stored k' delivers' => ?_, fun d' left => ?_⟩
    · have known := receive_metaRow step
      rw [none] at known
      cases known
    · rcases List.mem_cons.mp member with rfl | earlier
      · rw [only k' delivers']
        exact Finset.mem_insert_self k got
      · exact Finset.mem_insert_of_mem (covered b earlier stored k' delivers')
    · rcases receive_cases step with ⟨_, gone, rfl, _⟩ | ⟨m, d, origin, filled⟩
      · rw [gone] at left
        cases left
      · have start : d.message = l.stored got := by
          rcases origin with rfl | ⟨rfl, _, _, rfl⟩
          · exact blob d rfl
          · rw [empty rfl]
            exact mosaic_empty.symm
        exact deposit_own inside start filled left

/-- A fragment stored before and delivered again changes nothing exactly if
its message is complete or the byte stored at its offset is not zero; and while
only the letter's own fragments have come in under its key, that byte is the
fragment's first payload byte. -/
theorem redelivery_unchanged_iff {l : Letter} {k : Nat} {f₀ : InboundFragment}
    (history : History limit past db) (stored : ⟨f₀, true⟩ ∈ past) (first : Delivers l k f₀)
    (again : Delivers l k f) :
    (Unchanged limit db f ↔
      ∀ d, (rows db l.key).dataRow = some d → d.message[k * l.size]? ≠ some 0) ∧
    (OnlyOwn l past →
      (Unchanged limit db f ↔ (rows db l.key).dataRow = none ∨ l.bytes[k * l.size]? ≠ some 0)) := by
  have place := stored_place history stored (by rw [first.key]; rfl)
  rw [first.key] at place
  obtain ⟨inside, type, tm, rfl⟩ := again.eq
  obtain ⟨_, type₀, tm₀, rfl⟩ := first.eq
  obtain ⟨m, known⟩ := Option.isSome_iff_exists.mp place.1
  have byte := unchanged_iff_byte limit (f := l.inbound k type tm) known place.2
  refine ⟨byte, fun own => byte.trans ?_⟩
  obtain ⟨got, _, covered, blob⟩ := own_blob history own
  have member : k ∈ got := covered _ stored rfl k first
  have head : (l.stored got)[k * l.size]? = l.bytes[k * l.size]? := by
    rw [l.stored_head got inside, if_pos member]
  constructor
  · intro nonzero
    cases held : (rows db l.key).dataRow with
    | none => exact .inl rfl
    | some d =>
      have := nonzero d held
      rw [blob d held] at this
      exact .inr (head ▸ this)
  · rintro (gone | nonzero) d held
    · have held : (rows db l.key).dataRow = some d := held
      rw [gone] at held
      cases held
    · rw [blob d held]
      change (l.stored got)[k * l.size]? ≠ some 0
      rwa [head]

/-- The history of a letter whose first fragment has come in and was stored. -/
theorem stored_first {f : InboundFragment} {r : Rows} {ready : Option MsgReady}
    (step : receive limit f {} = .ok (r, ready))
    (counts : fragsDone r = 1) : ∃ db, History limit [⟨f, true⟩] db ∧ rows db f.key = r := by
  have start : rows {} f.key = {} := rfl
  rw [← start] at step
  obtain ⟨db, ran, _, after⟩ := insert_of_receive step
  refine ⟨db, ?_, after⟩
  have history := History.received .fresh ran
  rw [after, start, counts] at history
  exact history

/-- With a first byte that is not zero a redelivery goes unnoticed. -/
theorem redelivery_unchanged_uniform : ∃ db,
    History defaultLimit [⟨(uniformLetter 1).inbound 0 0 0, true⟩] db ∧
      Unchanged defaultLimit db ((uniformLetter 1).inbound 0 0 5) := by
  have step : receive defaultLimit ((uniformLetter 1).inbound 0 0 0) {} =
      .ok (⟨some ⟨0, 0, 0, 1, 2⟩, some { message := (uniformLetter 1).stored {0} }⟩, none) := by
    decide +kernel
  obtain ⟨db, history, after⟩ := stored_first step rfl
  have inside : 0 < (uniformLetter 1).parts := by decide +kernel
  refine ⟨db, history, ((redelivery_unchanged_iff history List.mem_cons_self
    (delivers_inbound inside 0 0) (delivers_inbound inside 0 5)).1).mpr fun d held => ?_⟩
  have blob : (rows db (uniformLetter 1).key).dataRow =
      some { message := (uniformLetter 1).stored {0} } := congrArg Rows.dataRow after
  rw [held] at blob
  rw [Option.some.inj blob]
  decide +kernel

/-- A fragment whose payload starts with a zero byte is counted twice. -/
theorem redelivery_counted_twice : ∃ db,
    History defaultLimit [⟨(uniformLetter 0).inbound 0 0 0, true⟩] db ∧
      Delivers (uniformLetter 0) 0 ((uniformLetter 0).inbound 0 0 0) ∧
      ¬ Unchanged defaultLimit db ((uniformLetter 0).inbound 0 0 0) := by
  have step : receive defaultLimit ((uniformLetter 0).inbound 0 0 0) {} =
      .ok (⟨some ⟨0, 0, 0, 1, 2⟩, some { message := List.replicate 65 0 }⟩, none) := by
    decide +kernel
  obtain ⟨db, history, after⟩ := stored_first step rfl
  have inside : 0 < (uniformLetter 0).parts := by decide +kernel
  refine ⟨db, history, delivers_inbound inside 0 0, fun unchanged => ?_⟩
  have place := stored_place history List.mem_cons_self rfl
  obtain ⟨m, known⟩ := Option.isSome_iff_exists.mp place.1
  refine (unchanged_iff_byte _ known place.2).mp unchanged { message := List.replicate 65 0 } ?_ ?_
  · rw [after]
  · decide +kernel

end Defragmenter.Redelivery
