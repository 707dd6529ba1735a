import Defragmenter.InboundHistory

/-! Reassembly undoes splitting. The rows of one letter refine an inbox: the
set of its parts that have come in, empty before the first and complete behind
the last. Each part once, in any order and between any fragments of other
letters, the client is handed the original message with the last one. -/
namespace Defragmenter.Reassembly
open Database InboundStore InboundHistory Receiver Tiling

/-- The rows of a letter of which the parts in `got` have come in. -/
def Holds (l : Letter) (got : Finset Nat) (r : Rows) : Prop :=
  if got = ∅ then r = {}
  else ∃ m, r.metaRow = some m ∧ m.fragsNum = l.parts ∧ m.fragsDone = got.card ∧
    if got.card = l.parts then r.dataRow = none
    else ∃ d, r.dataRow = some d ∧ d.message = l.stored got

/-- Rows that no fragment of the letter can make abort. -/
def Receptive (l : Letter) (r : Rows) : Prop :=
  (r.metaRow = none → r.dataRow = none) ∧
    ∀ d, r.dataRow = some d → d.message.length = l.bytes.length

variable {limit : BlobLimit} {l : Letter} {k : Nat} {r r' : Rows} {got : Finset Nat}
  {ready : Option MsgReady}

private theorem deposit_new {m : MetaRow} {d : DataRow} (type : Int) (tm : Nat)
    (inside : k < l.parts) (missing : k ∉ got) (num : m.fragsNum = l.parts)
    (done : m.fragsDone = got.card) (blob : d.message = l.stored got) :
    ∃ r' ready, deposit (l.inbound k type tm) m d = .ok (r', ready) ∧
      Holds l (insert k got) r' ∧ ready.map messageReady =
        if (insert k got).card = l.parts then some ⟨l.friendNumber, type, l.stored (insert k got)⟩
        else none := by
  have probe : d.message[(l.inbound k type tm).off]? = some 0 := by
    have head := l.stored_head got inside
    rw [if_neg missing] at head
    rw [blob]
    exact head
  have fits := l.stored_fits got inside type tm
  rw [← blob] at fits
  have write := l.stored_write got inside type tm
  rw [← blob] at write
  have nonempty : insert k got ≠ ∅ := Finset.insert_ne_empty k got
  have card : (insert k got).card = got.card + 1 := Finset.card_insert_of_notMem missing
  have short : ¬ d.message.length < (l.inbound k type tm).off + (l.inbound k type tm).length % 2 ^ 32 :=
    Nat.not_lt.mpr fits
  have doneNext : (counted (l.inbound k type tm) m).fragsDone = (insert k got).card := by
    rw [counted_fragsDone, card]
    omega
  have numNext : (counted (l.inbound k type tm) m).fragsNum = l.parts := by
    rw [counted_fragsNum, num]
  unfold deposit
  simp only [probe, ne_eq, not_true_eq_false, short, ↓reduceIte, write, doneNext, numNext,
    Int.natCast_inj]
  by_cases complete : (insert k got).card = l.parts
  · simp only [complete, ↓reduceIte]
    refine ⟨_, _, rfl, ?_, rfl⟩
    rw [Holds, if_neg nonempty, if_pos complete]
    exact ⟨_, rfl, numNext, doneNext, rfl⟩
  · simp only [complete, ↓reduceIte]
    refine ⟨_, _, rfl, ?_, rfl⟩
    rw [Holds, if_neg nonempty, if_neg complete]
    exact ⟨_, rfl, numNext, doneNext, _, rfl, rfl⟩

/-- A part that is still missing moves its letter on by exactly this part, and
the client is called exactly if it was the last one missing. -/
theorem receive_missing (type : Int) (tm : Nat) (fits : l.bytes.length ≤ limit.val)
    (inside : k < l.parts) (within : got ⊆ Finset.range l.parts) (missing : k ∉ got)
    (holds : Holds l got r) :
    ∃ r' ready, receive limit (l.inbound k type tm) r = .ok (r', ready) ∧
      Holds l (insert k got) r' ∧ ready.map messageReady =
        if (insert k got).card = l.parts then some ⟨l.friendNumber, type, l.stored (insert k got)⟩
        else none := by
  by_cases empty : got = ∅
  · subst empty
    obtain rfl : r = {} := holds
    have small : ¬ limit.val < (l.inbound k type tm).sz := Nat.not_lt.mpr fits
    have parts : toInt32 l.parts = l.parts := by
      have := l.parts_le
      have := limit.property
      exact toInt32_of_lt (by omega)
    simp only [receive, small, ↓reduceIte]
    have num : (newMeta (l.inbound k type tm)).fragsNum = l.parts := by
      rw [newMeta_fragsNum]
      exact parts
    have done : (newMeta (l.inbound k type tm)).fragsDone = (∅ : Finset Nat).card := rfl
    exact deposit_new type tm inside missing num done mosaic_empty.symm
  · rw [Holds, if_neg empty] at holds
    obtain ⟨m, known, num, done, rest⟩ := holds
    have notAll : got.card ≠ l.parts := by
      intro all
      have same : got = Finset.range l.parts :=
        Finset.eq_of_subset_of_card_le within (by rw [Finset.card_range, all])
      rw [same, Finset.mem_range] at missing
      exact missing inside
    rw [if_neg notAll] at rest
    obtain ⟨d, held, blob⟩ := rest
    have here : r = ⟨some m, some d⟩ := by rw [← known, ← held]
    subst here
    exact deposit_new type tm inside missing num done blob

/-- A fragment of another letter is received, and leaves room for the next. -/
theorem receive_receptive (type : Int) (tm : Nat) (fits : l.bytes.length ≤ limit.val)
    (inside : k < l.parts) (receptive : Receptive l r) :
    ∃ r' ready, receive limit (l.inbound k type tm) r = .ok (r', ready) ∧ Receptive l r' := by
  have offset := l.offset_lt inside
  have fitting : ∀ d : DataRow, d.message.length = l.bytes.length →
      (l.inbound k type tm).off < d.message.length ∧
      (l.inbound k type tm).off + (l.inbound k type tm).length % 2 ^ 32 ≤ d.message.length := by
    intro d same
    have room := l.stored_fits ∅ inside type tm
    rw [Letter.stored, mosaic_length] at room
    rw [same]
    exact ⟨offset, room⟩
  have filled : ∀ (m : MetaRow) (d : DataRow), d.message.length = l.bytes.length →
      ∃ r' ready, deposit (l.inbound k type tm) m d = .ok (r', ready) ∧ Receptive l r' := by
    intro m d same
    obtain ⟨starts, ends⟩ := fitting d same
    obtain ⟨⟨r', ready⟩, step⟩ := deposit_returns_iff (m := m).mpr ⟨starts, .inr ends⟩
    refine ⟨r', ready, step, ?_⟩
    rcases deposit_cases step with ⟨_, _, _, rfl, _⟩ | ⟨_, _, ⟨_, rfl, _⟩ | ⟨_, rfl, _⟩⟩
    · exact ⟨by simp, fun d' left => Option.some.inj left ▸ same⟩
    · exact ⟨by simp, by simp⟩
    · refine ⟨by simp, fun d' left => ?_⟩
      rw [← Option.some.inj left]
      exact (written_length ends).trans same
  obtain ⟨metaRow, dataRow⟩ := r
  cases dataRow with
  | none =>
    cases metaRow with
    | some m => exact ⟨_, none, rfl, receptive⟩
    | none =>
      have small : ¬ limit.val < (l.inbound k type tm).sz := Nat.not_lt.mpr fits
      simp only [receive, small, ↓reduceIte]
      exact filled _ _ List.length_replicate
  | some d =>
    cases metaRow with
    | some m => exact filled m d (receptive.2 d rfl)
    | none => cases receptive.1 rfl

/-! ## Runs -/

/-- One call of the message callback, with the fragment it brings. -/
structure Delivery where
  letter : Letter
  part : Nat
  incoming : Incoming
  tm : Nat
  carried : Carries letter part incoming

/-- The calls one after another, and for each what the client was handed. -/
def deliverAll (limit : BlobLimit) : Db → List Delivery → Except Fault (Db × List (Option Handed))
  | db, [] => .ok (db, [])
  | db, d :: rest => do
    let (db, handed) ← friendMessageCb limit db d.incoming d.tm
    let (db, others) ← deliverAll limit db rest
    pure (db, handed :: others)

/-- The parts of one key among the deliveries, in their order. -/
def partsOf (key : Key) (ds : List Delivery) : List Nat :=
  (ds.filter fun d => d.letter.key = key).map (·.part)

/-- Each part of the letter once, in any order, between any fragments of other
letters, where a key stands for one letter and every letter can be stored. -/
structure Interleaved (limit : BlobLimit) (l : Letter) (ds : List Delivery) : Prop where
  each : (partsOf l.key ds).Perm (List.range l.parts)
  own : ∀ d ∈ ds, d.letter.key = l.key → d.letter = l
  consistent : ∀ d ∈ ds, ∀ e ∈ ds, d.letter.key = e.letter.key → d.letter = e.letter
  small : ∀ d ∈ ds, d.letter.bytes.length ≤ limit.val

/-- `friend_message_cb` on a delivery, from what `receive` does to its rows. -/
theorem deliver_step {db : Db} {d : Delivery}
    (step : receive limit (d.letter.inbound d.part d.incoming.type d.tm) (rows db d.letter.key) =
      .ok (r', ready)) :
    ∃ db', friendMessageCb limit db d.incoming d.tm = .ok (db', ready.map messageReady) ∧
      rows db' d.letter.key = r' ∧ AgreeOff d.letter.key db db' := by
  obtain ⟨db', ran, agree, after⟩ := insert_of_receive
    (f := d.letter.inbound d.part d.incoming.type d.tm) step
  refine ⟨db', ?_, after, agree⟩
  rw [friendMessageCb_carried d.carried, ran]
  rfl

@[simp] theorem partsOf_own {key : Key} {d : Delivery} {ds : List Delivery}
    (own : d.letter.key = key) : partsOf key (d :: ds) = d.part :: partsOf key ds := by
  simp [partsOf, own]

@[simp] theorem partsOf_other {key : Key} {d : Delivery} {ds : List Delivery}
    (other : d.letter.key ≠ key) : partsOf key (d :: ds) = partsOf key ds := by
  simp [partsOf, other]

/-- What is left to come of the letter, and the store it comes to. -/
structure Underway (limit : BlobLimit) (l : Letter) (got : Finset Nat) (db : Db)
    (ds : List Delivery) : Prop where
  nodup : (partsOf l.key ds).Nodup
  missing : ∀ k ∈ partsOf l.key ds, k < l.parts ∧ k ∉ got
  within : got ⊆ Finset.range l.parts
  count : got.card + (partsOf l.key ds).length = l.parts
  own : ∀ d ∈ ds, d.letter.key = l.key → d.letter = l
  consistent : ∀ d ∈ ds, ∀ e ∈ ds, d.letter.key = e.letter.key → d.letter = e.letter
  small : ∀ d ∈ ds, d.letter.bytes.length ≤ limit.val
  holds : Holds l got (rows db l.key)
  receptive : ∀ d ∈ ds, d.letter.key ≠ l.key → Receptive d.letter (rows db d.letter.key)

/-- The client's call for the delivery of an own part, when `later` parts of
the letter are still to come behind it. -/
def handedWith (l : Letter) (d : Delivery) (later : List Nat) : Option Handed :=
  if later = [] then some ⟨l.friendNumber, d.incoming.type, l.bytes⟩ else none

variable {db : Db} {d : Delivery} {ds : List Delivery}

/-- An own part comes in. -/
theorem underway_own (underway : Underway limit l got db (d :: ds)) (own : d.letter.key = l.key) :
    ∃ db', friendMessageCb limit db d.incoming d.tm =
        .ok (db', handedWith l d (partsOf l.key ds)) ∧
      Underway limit l (insert d.part got) db' ds := by
  obtain ⟨nodup, missing, within, count, mine, consistent, small, holds, receptive⟩ := underway
  have here : d ∈ d :: ds := List.mem_cons_self
  have same : d.letter = l := mine d here own
  rw [partsOf_own own] at nodup missing count
  obtain ⟨inside, new⟩ := missing d.part List.mem_cons_self
  have card : (insert d.part got).card = got.card + 1 := Finset.card_insert_of_notMem new
  have extends_ : insert d.part got ⊆ Finset.range l.parts :=
    Finset.insert_subset (Finset.mem_range.mpr inside) within
  obtain ⟨r', ready, step, holds', called⟩ := receive_missing d.incoming.type d.tm
    (same ▸ small d here) inside within new holds
  obtain ⟨db', ran, after, agree⟩ := deliver_step (d := d) (by rw [same]; exact step)
  rw [same] at after agree
  simp only [List.length_cons] at count
  have last : (insert d.part got).card = l.parts ↔ partsOf l.key ds = [] := by
    rw [← List.length_eq_zero_iff]
    omega
  refine ⟨db', ?_, ⟨nodup.of_cons, fun k member => ⟨(missing k (List.mem_cons_of_mem _ member)).1, ?_⟩,
    extends_, by omega, fun e member => mine e (List.mem_cons_of_mem _ member),
    fun e member e' member' => consistent e (List.mem_cons_of_mem _ member) e'
      (List.mem_cons_of_mem _ member'), fun e member => small e (List.mem_cons_of_mem _ member),
    by rw [after]; exact holds', fun e member other => ?_⟩⟩
  · rw [ran, called, handedWith]
    by_cases complete : (insert d.part got).card = l.parts
    · have all : insert d.part got = Finset.range l.parts :=
        Finset.eq_of_subset_of_card_le extends_ (by rw [Finset.card_range, complete])
      have whole : l.stored (insert d.part got) = l.bytes := by
        rw [all, l.stored_all]
      rw [if_pos complete, if_pos (last.mp complete), whole]
    · rw [if_neg complete, if_neg fun none => complete (last.mpr none)]
  · have seen := (missing k (List.mem_cons_of_mem _ member)).2
    have different : k ≠ d.part := fun equal => (List.nodup_cons.mp nodup).1 (equal ▸ member)
    simp [seen, different]
  · rw [agree _ other]
    exact receptive e (List.mem_cons_of_mem _ member) other

/-- A part of another letter comes in. -/
theorem underway_other (underway : Underway limit l got db (d :: ds)) (other : d.letter.key ≠ l.key) :
    ∃ db' handed, friendMessageCb limit db d.incoming d.tm = .ok (db', handed) ∧
      Underway limit l got db' ds := by
  obtain ⟨nodup, missing, within, count, mine, consistent, small, holds, receptive⟩ := underway
  have here : d ∈ d :: ds := List.mem_cons_self
  rw [partsOf_other other] at nodup missing count
  obtain ⟨r', ready, step, ready'⟩ := receive_receptive d.incoming.type d.tm
    (small d here) (carries_iff.mp d.carried).2.1 (receptive d here other)
  obtain ⟨db', ran, after, agree⟩ := deliver_step step
  refine ⟨db', _, ran, ⟨nodup, missing, within, count,
    fun e member => mine e (List.mem_cons_of_mem _ member),
    fun e member e' member' => consistent e (List.mem_cons_of_mem _ member) e'
      (List.mem_cons_of_mem _ member'), fun e member => small e (List.mem_cons_of_mem _ member),
    by rw [agree _ (Ne.symm other)]; exact holds, fun e member different => ?_⟩⟩
  by_cases same : e.letter.key = d.letter.key
  · have equal := consistent e (List.mem_cons_of_mem _ member) d here same
    rw [equal, after]
    exact ready'
  · rw [agree _ same]
    exact receptive e (List.mem_cons_of_mem _ member) different

theorem deliverAll_cons {db₁ db' : Db} {first : Option Handed} {handed : List (Option Handed)}
    (ran : friendMessageCb limit db d.incoming d.tm = .ok (db₁, first))
    (runs : deliverAll limit db₁ ds = .ok (db', handed)) :
    deliverAll limit db (d :: ds) = .ok (db', first :: handed) := by
  rw [deliverAll, ran]
  change (deliverAll limit db₁ ds >>= _) = _
  rw [runs]
  rfl

theorem deliverAll_underway (underway : Underway limit l got db ds) :
    ∃ db' handed, deliverAll limit db ds = .ok (db', handed) ∧
      ∀ i d, ds[i]? = some d → d.letter.key = l.key →
        handed[i]? = some (handedWith l d (partsOf l.key (ds.drop (i + 1)))) := by
  induction ds generalizing db got with
  | nil => exact ⟨db, [], rfl, by simp⟩
  | cons d ds ih =>
    by_cases own : d.letter.key = l.key
    · obtain ⟨db₁, ran, rest⟩ := underway_own underway own
      obtain ⟨db', handed, runs, called⟩ := ih rest
      refine ⟨db', _, deliverAll_cons ran runs, fun i e at_i mine => ?_⟩
      cases i with
      | zero =>
        cases at_i
        rfl
      | succ i => exact called i e at_i mine
    · obtain ⟨db₁, handed₁, ran, rest⟩ := underway_other underway own
      obtain ⟨db', handed, runs, called⟩ := ih rest
      refine ⟨db', _, deliverAll_cons ran runs, fun i e at_i mine => ?_⟩
      cases i with
      | zero =>
        cases at_i
        exact absurd mine own
      | succ i => exact called i e at_i mine

/-- Delivered once each, in any order and between any fragments of other
letters, the fragments of a split message make the client be called exactly
once for it: with the last of them, and with the original bytes. -/
theorem reassembly_undoes_splitting (db : Db) (interleaved : Interleaved limit l ds)
    (absent : rows db l.key = {})
    (others : ∀ d ∈ ds, d.letter.key ≠ l.key → Receptive d.letter (rows db d.letter.key)) :
    ∃ db' handed, deliverAll limit db ds = .ok (db', handed) ∧
      ∀ i d, ds[i]? = some d → d.letter.key = l.key →
        handed[i]? = some (if partsOf l.key (ds.drop (i + 1)) = []
          then some ⟨l.friendNumber, d.incoming.type, l.bytes⟩ else none) := by
  obtain ⟨each, own, consistent, small⟩ := interleaved
  have start : Underway limit l ∅ db ds := ⟨each.nodup_iff.mpr List.nodup_range, fun k member =>
    ⟨List.mem_range.mp (each.mem_iff.mp member), by simp⟩, by simp, by
    rw [each.length_eq, List.length_range, Finset.card_empty, Nat.zero_add], own, consistent, small,
    absent, others⟩
  exact deliverAll_underway start

/-- The delivery of a letter's own packet. -/
def delivery (l : Letter) (k : Nat) (inside : k < l.parts) (type : Int) (tm : Nat) : Delivery where
  letter := l
  part := k
  incoming := packet l k type
  tm := tm
  carried := carries_packet inside type

/-- A two-part letter, its second part first. -/
def backToFront : List Delivery :=
  [delivery (uniformLetter 1) 1 (by decide +kernel) 0 8,
    delivery (uniformLetter 1) 0 (by decide +kernel) 0 9]

theorem interleaved_backToFront : Interleaved defaultLimit (uniformLetter 1) backToFront where
  each := by decide +kernel
  own := by simp [backToFront, delivery]
  consistent := by simp [backToFront, delivery]
  small := by simp [backToFront, delivery, uniformLetter, defaultLimit]

/-- Back to front, the second call is the one that hands the message over. -/
theorem reassembly_back_to_front : ∃ db' handed,
    deliverAll defaultLimit {} backToFront = .ok (db', handed) ∧ handed[0]? = some none ∧
      handed[1]? = some (some ⟨7, 0, (uniformLetter 1).bytes⟩) := by
  obtain ⟨db', handed, ran, called⟩ := reassembly_undoes_splitting {}
    interleaved_backToFront rfl (by simp [backToFront, delivery])
  exact ⟨db', handed, ran, called 0 _ rfl rfl, called 1 _ rfl rfl⟩

end Defragmenter.Reassembly
