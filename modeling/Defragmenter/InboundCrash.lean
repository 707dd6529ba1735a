import Defragmenter.Reassembly
import Defragmenter.Restart

/-! A crash while a fragment is being stored. `dbInsertInboundFragment` works
without a transaction, so what is on disk is what its statements up to some
point have left. Which parts a blob shows and how many are counted decide what
another delivery of the message can still bring about: it hands the message
over as long as every part shown is also counted and one is missing. -/
namespace Defragmenter.InboundCrash
open Database InboundStore InboundHistory Receiver Reassembly Tiling Sender

/-- Every fragment's payload begins with a byte that the probe tells from a blank. -/
def Legible (l : Letter) : Prop := ∀ k < l.parts, l.bytes[k * l.size]? ≠ some 0

/-- The blob shows the parts in `shown`, and `count` parts are counted. -/
def Filed (l : Letter) (shown : Finset Nat) (count : Nat) (r : Rows) : Prop :=
  (r = {} ∧ shown = ∅ ∧ count = 0) ∨ ∃ m d, r = ⟨some m, some d⟩ ∧ m.fragsNum = l.parts ∧
    m.fragsDone = count ∧ d.message = l.stored shown

/-- The message was handed over, and its data row dropped. -/
def Finished (r : Rows) : Prop := r.metaRow.isSome ∧ r.dataRow = none

variable {limit : BlobLimit} {stop : Statement} {l : Letter} {shown got : Finset Nat} {count k : Nat}
  {r : Rows} {db db' : Db} {ds : List Delivery}

/-! ## One call -/

/-- A filed letter is worked on in two rows, which its first fragment makes. -/
theorem filed_opens (type : Int) (tm : Nat) (fits : l.bytes.length ≤ limit.val)
    (filed : Filed l shown count r) :
    ∃ (m : MetaRow) (d : DataRow), m.fragsNum = l.parts ∧ m.fragsDone = count ∧
      d.message = l.stored shown ∧
      (receiveUntil limit .dataInsert (l.inbound k type tm) r =
        .ok (if r = {} then ⟨none, some d⟩ else r, none)) ∧
      (receiveUntil limit .metaInsert (l.inbound k type tm) r = .ok (⟨some m, some d⟩, none)) ∧
      ∀ stop, stop ≠ .dataInsert → stop ≠ .metaInsert →
        receiveUntil limit stop (l.inbound k type tm) r = depositUntil stop (l.inbound k type tm) m d := by
  rcases filed with ⟨rfl, rfl, rfl⟩ | ⟨m, d, rfl, num, done, blob⟩
  · have small : ¬ limit.val < (l.inbound k type tm).sz := Nat.not_lt.mpr fits
    have parts : toInt32 l.parts = l.parts := by
      have := l.parts_le
      have := limit.property
      exact toInt32_of_lt (by omega)
    have num : (newMeta (l.inbound k type tm)).fragsNum = l.parts := by
      rw [newMeta_fragsNum]
      exact parts
    refine ⟨newMeta (l.inbound k type tm), { message := List.replicate l.bytes.length 0 }, num, rfl,
      mosaic_empty.symm, ?_, ?_, fun stop data meta_ => ?_⟩
    · simp only [receiveUntil, small, ↓reduceIte]
      rfl
    · simp only [receiveUntil, small, reduceCtorEq, ↓reduceIte]
      rfl
    · simp only [receiveUntil, small, data, meta_, ↓reduceIte]
      rfl
  · refine ⟨m, d, num, done, blob, ?_, ?_, fun stop data meta_ => ?_⟩
    · simp only [receiveUntil, true_or, ↓reduceIte]
      rw [if_neg (by simp)]
    · simp only [receiveUntil, or_true, ↓reduceIte]
    · simp only [receiveUntil, data, meta_, or_self, ↓reduceIte]

/-- A part that the blob does not show yet. -/
theorem depositUntil_new {m : MetaRow} {d : DataRow} (type : Int) (tm : Nat) (inside : k < l.parts)
    (missing : k ∉ shown) (num : m.fragsNum = l.parts) (done : m.fragsDone = count)
    (blob : d.message = l.stored shown) : ∃ ready : MsgReady,
      messageReady ready = ⟨l.friendNumber, type, l.stored (insert k shown)⟩ ∧
      depositUntil stop (l.inbound k type tm) m d =
        if stop = .blobWrite then .ok (⟨some m, some { d with message := l.stored (insert k shown) }⟩, none)
        else if stop = .counterUpdate then .ok (⟨some (counted (l.inbound k type tm) m),
          some { d with message := l.stored (insert k shown) }⟩, none)
        else if count + 1 = l.parts then .ok (⟨some (counted (l.inbound k type tm) m),
          if stop = .readyCallback then some { d with message := l.stored (insert k shown) } else none⟩,
          some ready)
        else .ok (⟨some (counted (l.inbound k type tm) m),
          some { d with message := l.stored (insert k shown) }⟩, none) := by
  have probe : d.message[(l.inbound k type tm).off]? = some 0 := by
    have head := l.stored_head shown inside
    rw [if_neg missing] at head
    rw [blob]
    exact head
  have fits := l.stored_fits shown inside type tm
  rw [← blob] at fits
  have write := l.stored_write shown inside type tm
  rw [← blob] at write
  have short : ¬ d.message.length < (l.inbound k type tm).off + (l.inbound k type tm).length % 2 ^ 32 :=
    Nat.not_lt.mpr fits
  have complete : (counted (l.inbound k type tm) m).fragsDone =
      (counted (l.inbound k type tm) m).fragsNum ↔ count + 1 = l.parts := by
    rw [counted_fragsDone, counted_fragsNum, num, done]
    omega
  unfold depositUntil
  simp only [probe, ne_eq, not_true_eq_false, short, ↓reduceIte, write, complete]
  exact ⟨_, rfl, rfl⟩

/-- A part that the blob shows changes nothing. -/
theorem receiveUntil_shown (type : Int) (tm : Nat) (legible : Legible l) (inside : k < l.parts)
    (present : k ∈ shown) (filed : Filed l shown count r) :
    receiveUntil limit stop (l.inbound k type tm) r = .ok (r, none) := by
  rcases filed with ⟨_, rfl, _⟩ | ⟨m, d, rfl, _, _, blob⟩
  · exact absurd present (Finset.notMem_empty k)
  · have head := l.stored_head shown inside
    rw [if_pos present] at head
    obtain ⟨b, byte⟩ : ∃ b, l.bytes[k * l.size]? = some b :=
      ⟨_, List.getElem?_eq_getElem (l.offset_lt inside)⟩
    have nonzero : b ≠ 0 := by
      rintro rfl
      exact legible k inside byte
    have probe : d.message[(l.inbound k type tm).off]? = some b := by
      rw [blob]
      exact head.trans byte
    simp only [receiveUntil, depositUntil, probe, ne_eq, nonzero, not_false_eq_true, ↓reduceIte,
      ite_self]

theorem receiveUntil_finished {f : InboundFragment} (finished : Finished r) :
    receiveUntil limit stop f r = .ok (r, none) := by
  obtain ⟨metaRow, dataRow⟩ := r
  obtain ⟨known, rfl⟩ : metaRow.isSome ∧ dataRow = none := finished
  obtain ⟨m, rfl⟩ := Option.isSome_iff_exists.mp known
  rfl

theorem Filed.ne_empty (filed : Filed l shown count r) (some_ : shown ≠ ∅) : r ≠ {} := by
  rcases filed with ⟨_, none_, _⟩ | ⟨m, d, rfl, _⟩
  · exact absurd none_ some_
  · simp

/-! ## Deliveries -/

theorem deliver_until {d : Delivery} {r' : Rows} {ready : Option MsgReady} (own : d.letter = l)
    (step : receiveUntil limit .dataDelete (l.inbound d.part d.incoming.type d.tm) (rows db l.key) =
      .ok (r', ready)) :
    ∃ db', friendMessageCb limit db d.incoming d.tm = .ok (db', ready.map messageReady) ∧
      rows db' l.key = r' ∧ AgreeOff l.key db db' := by
  subst own
  rw [receiveUntil_dataDelete] at step
  exact deliver_step step

theorem part_inside {d : Delivery} (own : d.letter = l) : d.part < l.parts := by
  subst own
  exact (carries_iff.mp d.carried).2.1

/-- Deliveries that bring the client nothing. -/
def Silent (limit : BlobLimit) (l : Letter) (db : Db) (ds : List Delivery) (r : Rows → Prop) : Prop :=
  ∃ db' handed, deliverAll limit db ds = .ok (db', handed) ∧ (∀ h ∈ handed, h = none) ∧
    AgreeOff l.key db db' ∧ r (rows db' l.key)

/-- Deliveries with one of which the client is handed the letter. -/
def Handing (limit : BlobLimit) (l : Letter) (db : Db) (ds : List Delivery) : Prop :=
  ∃ db' handed, deliverAll limit db ds = .ok (db', handed) ∧
    (∃ type, some ⟨l.friendNumber, type, l.bytes⟩ ∈ handed) ∧
    AgreeOff l.key db db' ∧ Finished (rows db' l.key)

theorem Silent.nil {r : Rows → Prop} (here : r (rows db l.key)) : Silent limit l db [] r :=
  ⟨db, [], rfl, by simp, fun _ _ => rfl, here⟩

theorem Silent.cons {r : Rows → Prop} {d : Delivery}
    (ran : friendMessageCb limit db d.incoming d.tm = .ok (db', none)) (agree : AgreeOff l.key db db')
    (rest : Silent limit l db' ds r) : Silent limit l db (d :: ds) r := by
  obtain ⟨db₂, handed, runs, silent, agree₂, here⟩ := rest
  refine ⟨db₂, none :: handed, deliverAll_cons ran runs, fun h member => ?_, agree.trans agree₂, here⟩
  rcases List.mem_cons.mp member with rfl | later
  · rfl
  · exact silent h later

theorem Handing.later {d : Delivery}
    (ran : friendMessageCb limit db d.incoming d.tm = .ok (db', none)) (agree : AgreeOff l.key db db')
    (rest : Handing limit l db' ds) : Handing limit l db (d :: ds) := by
  obtain ⟨db₂, handed, runs, ⟨type, member⟩, agree₂, here⟩ := rest
  exact ⟨db₂, none :: handed, deliverAll_cons ran runs, ⟨type, List.mem_cons_of_mem _ member⟩,
    agree.trans agree₂, here⟩

theorem silent_finished (own : ∀ d ∈ ds, d.letter = l) (finished : Finished (rows db l.key)) :
    Silent limit l db ds Finished := by
  induction ds generalizing db with
  | nil => exact .nil finished
  | cons d ds ih =>
    obtain ⟨db', ran, after, agree⟩ := deliver_until (own d List.mem_cons_self)
      (@receiveUntil_finished limit .dataDelete _ _ finished)
    refine .cons ran agree (ih (fun e member => own e (List.mem_cons_of_mem _ member)) ?_)
    rw [after]
    exact finished

/-- A blob that shows a part nobody counted, or shows them all, is never handed over. -/
theorem silent_lossy (legible : Legible l) (fits : l.bytes.length ≤ limit.val)
    (own : ∀ d ∈ ds, d.letter = l) (within : shown ⊆ Finset.range l.parts)
    (lossy : count < shown.card ∨ shown = Finset.range l.parts)
    (filed : Filed l shown count (rows db l.key)) : Silent limit l db ds fun _ => True := by
  induction ds generalizing db shown count with
  | nil => exact .nil trivial
  | cons d ds ih =>
    have mine := own d List.mem_cons_self
    have inside := part_inside mine
    have rest : ∀ e ∈ ds, e.letter = l := fun e member => own e (List.mem_cons_of_mem _ member)
    by_cases present : d.part ∈ shown
    · obtain ⟨db', ran, after, agree⟩ := deliver_until mine
        (receiveUntil_shown d.incoming.type d.tm legible inside present filed)
      exact .cons ran agree (ih rest within lossy (by rw [after]; exact filed))
    · have missing : shown ≠ Finset.range l.parts := by
        rintro rfl
        exact present (Finset.mem_range.mpr inside)
      have fewer := lossy.resolve_right missing
      have card : (insert d.part shown).card = shown.card + 1 := Finset.card_insert_of_notMem present
      have extended : insert d.part shown ⊆ Finset.range l.parts :=
        Finset.insert_subset (Finset.mem_range.mpr inside) within
      have le := Finset.card_le_card extended
      rw [Finset.card_range] at le
      obtain ⟨m, r, num, done, blob, _, _, works⟩ :=
        filed_opens (k := d.part) d.incoming.type d.tm fits filed
      obtain ⟨ready, _, deposited⟩ := @depositUntil_new .dataDelete l shown count d.part m r
        d.incoming.type d.tm inside present num done blob
      have more : count + 1 ≠ l.parts := by omega
      simp only [reduceCtorEq, more, ↓reduceIte] at deposited
      obtain ⟨db', ran, after, agree⟩ := deliver_until mine
        ((works .dataDelete (by simp) (by simp)).trans deposited)
      have filed' : Filed l (insert d.part shown) (count + 1) (rows db' l.key) := by
        rw [after]
        refine .inr ⟨_, _, rfl, (counted_fragsNum _ _).trans num, ?_, rfl⟩
        rw [counted_fragsDone, done]
        omega
      exact .cons ran agree (ih rest extended (.inl (by omega)) filed')

/-- A letter of which all that is shown is counted is handed over with the last
part that comes in. -/
theorem handing_whole (legible : Legible l) (fits : l.bytes.length ≤ limit.val)
    (own : ∀ d ∈ ds, d.letter = l) (within : shown ⊂ Finset.range l.parts)
    (filed : Filed l shown shown.card (rows db l.key)) :
    if shown ∪ (ds.map (·.part)).toFinset = Finset.range l.parts then Handing limit l db ds
    else Silent limit l db ds (Filed l (shown ∪ (ds.map (·.part)).toFinset)
      (shown ∪ (ds.map (·.part)).toFinset).card) := by
  induction ds generalizing db shown with
  | nil =>
    rw [List.map_nil, List.toFinset_nil, Finset.union_empty, if_neg within.ne]
    exact .nil filed
  | cons d ds ih =>
    have mine := own d List.mem_cons_self
    have inside := part_inside mine
    have rest : ∀ e ∈ ds, e.letter = l := fun e member => own e (List.mem_cons_of_mem _ member)
    rw [List.map_cons, List.toFinset_cons, Finset.union_insert, ← Finset.insert_union]
    by_cases present : d.part ∈ shown
    · obtain ⟨db', ran, after, agree⟩ := deliver_until mine
        (receiveUntil_shown d.incoming.type d.tm legible inside present filed)
      have goal := ih rest within (by rw [after]; exact filed)
      rw [Finset.insert_eq_of_mem present]
      split at goal
      · rename_i all
        rw [if_pos all]
        exact .later ran agree goal
      · rename_i some_
        rw [if_neg some_]
        exact .cons ran agree goal
    · have card : (insert d.part shown).card = shown.card + 1 := Finset.card_insert_of_notMem present
      have extended : insert d.part shown ⊆ Finset.range l.parts :=
        Finset.insert_subset (Finset.mem_range.mpr inside) within.subset
      obtain ⟨m, r, num, done, blob, _, _, works⟩ :=
        filed_opens (k := d.part) d.incoming.type d.tm fits filed
      obtain ⟨ready, handed, deposited⟩ := @depositUntil_new .dataDelete l shown shown.card d.part m r
        d.incoming.type d.tm inside present num done blob
      have step := (works .dataDelete (by simp) (by simp)).trans deposited
      simp only [reduceCtorEq, ↓reduceIte] at step
      by_cases last : shown.card + 1 = l.parts
      · have all : insert d.part shown = Finset.range l.parts :=
          Finset.eq_of_subset_of_card_le extended (by rw [Finset.card_range, card, last])
        simp only [last, ↓reduceIte] at step
        obtain ⟨db₁, ran, after, agree⟩ := deliver_until mine step
        have parts : (ds.map (·.part)).toFinset ⊆ Finset.range l.parts := by
          intro k member
          obtain ⟨e, present, rfl⟩ := List.mem_map.mp (List.mem_toFinset.mp member)
          exact Finset.mem_range.mpr (part_inside (rest e present))
        rw [all, Finset.union_eq_left.mpr parts, if_pos rfl]
        have closed : Finished (rows db₁ l.key) := by
          rw [after]
          exact ⟨rfl, rfl⟩
        obtain ⟨db₂, others, runs, _, agree₂, finished⟩ := @silent_finished limit l db₁ ds rest closed
        refine ⟨db₂, _, deliverAll_cons ran runs, ⟨d.incoming.type, ?_⟩, agree.trans agree₂, finished⟩
        rw [all, l.stored_all] at handed
        rw [Option.map_some, handed]
        exact List.mem_cons_self
      · simp only [last, ↓reduceIte] at step
        obtain ⟨db₁, ran, after, agree⟩ := deliver_until mine step
        have proper : insert d.part shown ⊂ Finset.range l.parts := by
          refine Finset.ssubset_iff_subset_ne.mpr ⟨extended, fun all => last ?_⟩
          rw [← card, all, Finset.card_range]
        have filed' : Filed l (insert d.part shown) (insert d.part shown).card (rows db₁ l.key) := by
          rw [after]
          refine .inr ⟨_, _, rfl, (counted_fragsNum _ _).trans num, ?_, rfl⟩
          rw [counted_fragsDone, done, card]
          omega
        have goal := ih rest proper filed'
        split at goal
        · rename_i all
          rw [if_pos all]
          exact .later ran agree goal
        · rename_i some_
          rw [if_neg some_]
          exact .cons ran agree goal

/-! ## Restart -/

/-- `initialize` returns over any outgoing rows and leaves an incoming message alone. -/
theorem initializeBoth_inbound {w : World} (room : 63 < w.params.maxMessageLength)
    (limitSmall : w.params.maxMessageLength < 2 ^ 32) (db : Db) :
    ∃ s, initializeBoth w { db } = .ok s ∧ rows s.db l.key = rows db l.key := by
  obtain ⟨s, started, adopted⟩ := Restart.initializeBoth_adopted room limitSmall db
  refine ⟨s, started, adopted.kept l.key fun p _ _ same => ?_⟩
  have outgoing : (Restart.keyOf p).outbound = true := rfl
  rw [same] at outgoing
  cases outgoing

/-- One process gets the deliveries `before` and crashes behind `stop` in a call
for `f`; the next is started on what is on disk and gets the deliveries
`after`. No call aborts, and the client has been handed the letter. -/
def Survives (w : World) (l : Letter) (db : Db) (before : List Delivery) (stop : Statement)
    (f : InboundFragment) (after : List Delivery) : Prop :=
  ∃ db₁ handed₁ db₂ ready s db₃ handed₃, deliverAll w.limit db before = .ok (db₁, handed₁) ∧
    insertUntil w.limit stop db₁ f = .ok (db₂, ready) ∧
    initializeBoth w { db := reopened db₂ } = .ok s ∧
    deliverAll w.limit s.db after = .ok (db₃, handed₃) ∧
    ∃ type, some ⟨l.friendNumber, type, l.bytes⟩ ∈ handed₁ ++ ready.map messageReady :: handed₃

/-- The crashes after which the message is not handed over: between the two
inserts, between a part and its count, and between the last count and the call. -/
def Lost (l : Letter) (got : Finset Nat) (k : Nat) (stop : Statement) : Prop :=
  k ∉ got ∧ (stop = .dataInsert ∧ got = ∅ ∨ stop = .blobWrite ∨
    stop = .counterUpdate ∧ insert k got = Finset.range l.parts)

variable {w : World} {before after : List Delivery} {f : InboundFragment}

/-- The parts among the deliveries. -/
def partsIn (ds : List Delivery) : Finset Nat := (ds.map (·.part)).toFinset

/-- What the first process leaves on disk, and what the client was handed by then. -/
theorem crash_leaves (after : List Delivery) {r' : Rows} {ready : Option MsgReady} {handed₁ : List (Option Handed)} {db₁ : Db}
    (room : 63 < w.params.maxMessageLength) (limitSmall : w.params.maxMessageLength < 2 ^ 32) (key : f.key = l.key)
    (ran : deliverAll w.limit db before = .ok (db₁, handed₁))
    (step : receiveUntil w.limit stop f (rows db₁ l.key) = .ok (r', ready)) :
    ∃ s : State, rows s.db l.key = r' ∧ (Survives w l db before stop f after ↔
      ∃ db₃ handed₃, deliverAll w.limit s.db after = .ok (db₃, handed₃) ∧
        ∃ type, some ⟨l.friendNumber, type, l.bytes⟩ ∈ handed₁ ++ ready.map messageReady :: handed₃) := by
  have stops := insertUntil_receive w.limit stop db₁ f
  rw [key, step] at stops
  obtain ⟨db₂, stopped, agree₂, left⟩ := stops
  obtain ⟨s, started, same⟩ := @initializeBoth_inbound l w room limitSmall (reopened db₂)
  refine ⟨s, same.trans left, ?_⟩
  constructor
  · rintro ⟨db₁', handed₁', db₂', ready', s', db₃, handed₃, ran', stopped', started', runs, whole⟩
    rw [ran, Except.ok.injEq, Prod.mk.injEq] at ran'
    obtain ⟨rfl, rfl⟩ := ran'
    rw [stopped, Except.ok.injEq, Prod.mk.injEq] at stopped'
    obtain ⟨rfl, rfl⟩ := stopped'
    rw [started, Except.ok.injEq] at started'
    subst started'
    exact ⟨db₃, handed₃, runs, whole⟩
  · rintro ⟨db₃, handed₃, runs, whole⟩
    exact ⟨db₁, handed₁, db₂, ready, s, db₃, handed₃, ran, stopped, started, runs, whole⟩

/-- Either the first process had the whole letter, or what it got is filed. -/
theorem first_process (legible : Legible l) (fits : l.bytes.length ≤ limit.val)
    (own : ∀ d ∈ before, d.letter = l) (absent : rows db l.key = {}) :
    (partsIn before = Finset.range l.parts ∧ Handing limit l db before) ∨
    (partsIn before ⊂ Finset.range l.parts ∧ Silent limit l db before fun r =>
      Filed l (partsIn before) (partsIn before).card r ∧ (partsIn before = ∅ → r = {})) := by
  have some_ : (∅ : Finset Nat) ⊂ Finset.range l.parts := by
    rw [Finset.empty_ssubset]
    exact ⟨0, Finset.mem_range.mpr l.parts_pos⟩
  have start : Filed l ∅ (∅ : Finset Nat).card (rows db l.key) := .inl ⟨absent, rfl, rfl⟩
  have went := handing_whole legible fits own some_ start
  rw [Finset.empty_union] at went
  change if partsIn before = _ then _ else Silent limit l db before (Filed l (partsIn before) (partsIn before).card) at went
  split at went
  · rename_i all
    exact .inl ⟨all, went⟩
  · rename_i missing
    have within : partsIn before ⊆ Finset.range l.parts := by
      intro k member
      obtain ⟨e, present, rfl⟩ := List.mem_map.mp (List.mem_toFinset.mp member)
      exact Finset.mem_range.mpr (part_inside (own e present))
    obtain ⟨db₁, handed, ran, silent, agree, filed⟩ := went
    refine .inr ⟨Finset.ssubset_iff_subset_ne.mpr ⟨within, missing⟩, db₁, handed, ran, silent, agree,
      filed, fun none_ => ?_⟩
    have nothing : before = [] := by
      rw [partsIn, List.toFinset_eq_empty_iff, List.map_eq_nil_iff] at none_
      exact none_
    subst nothing
    cases ran
    exact absent

/-- A blob without its meta row makes every fragment of the letter abort. -/
theorem deliver_orphan {d : Delivery} {data : DataRow} (own : d.letter = l)
    (orphan : rows db l.key = ⟨none, some data⟩) :
    deliverAll limit db (d :: ds) = .error .abort := by
  subst own
  have refused := dbInsertInboundFragment_receive limit db
    (d.letter.inbound d.part d.incoming.type d.tm)
  rw [Letter.inbound_key, orphan] at refused
  have refused : dbInsertInboundFragment limit db (d.letter.inbound d.part d.incoming.type d.tm) =
    .error .abort := refused
  rw [deliverAll, friendMessageCb_carried d.carried, refused]
  rfl

theorem not_handed {α : Type} {first last : List (Option α)} {whole : Int → α}
    (silent : ∀ h ∈ first, h = none) (after : ∀ h ∈ last, h = none) :
    ¬ ∃ type, some (whole type) ∈ first ++ none :: last := by
  rintro ⟨type, member⟩
  rcases List.mem_append.mp member with early | late
  · cases silent _ early
  · rcases List.mem_cons.mp late with here | late
    · cases here
    · cases after _ late

section Crash
variable (legible : Legible l) (fits : l.bytes.length ≤ w.limit.val)
  (absent : rows db l.key = {}) (room : 63 < w.params.maxMessageLength)
  (limitSmall : w.params.maxMessageLength < 2 ^ 32)
  (own : ∀ d ∈ before, d.letter = l) (ownLater : ∀ d ∈ after, d.letter = l)
  (all : partsIn after = Finset.range l.parts) (delivers : Delivers l k f)
include legible fits absent room limitSmall own ownLater all delivers

theorem not_survives_of_lost (lost : Lost l (partsIn before) k stop) :
    ¬ Survives w l db before stop f after := by
  obtain ⟨inside, type, tm, rfl⟩ := delivers.eq
  obtain ⟨missing, crash⟩ := lost
  rcases first_process legible fits own absent with ⟨complete, _⟩ | ⟨within, silent⟩
  · exact absurd (complete ▸ Finset.mem_range.mpr inside) missing
  obtain ⟨db₁, handed₁, ran, none₁, agree, filed, empty⟩ := silent
  obtain ⟨m, d, num, done, blob, dataStop, _, works⟩ := filed_opens (k := k) type tm fits filed
  have extended : insert k (partsIn before) ⊆ Finset.range l.parts :=
    Finset.insert_subset (Finset.mem_range.mpr inside) within.subset
  have card : (insert k (partsIn before)).card = (partsIn before).card + 1 :=
    Finset.card_insert_of_notMem missing
  -- what is left is handed over by no delivery
  have unheard : ∀ {r' : Rows} {count : Nat}, receiveUntil w.limit stop (l.inbound k type tm)
      (rows db₁ l.key) = .ok (r', none) → Filed l (insert k (partsIn before)) count r' →
      (count < (insert k (partsIn before)).card ∨ insert k (partsIn before) = Finset.range l.parts) →
      ¬ Survives w l db before stop (l.inbound k type tm) after := by
    intro r' count step filed' lossy
    obtain ⟨s, left, survives⟩ := crash_leaves after room limitSmall rfl ran step
    rw [survives]
    rintro ⟨db₃, handed₃, runs, whole⟩
    have filed' : Filed l (insert k (partsIn before)) count (rows s.db l.key) := by
      rw [left]
      exact filed'
    obtain ⟨db₄, handed₄, runs', none₄, _⟩ := silent_lossy legible fits ownLater extended lossy filed'
    rw [runs', Except.ok.injEq, Prod.mk.injEq] at runs
    obtain ⟨rfl, rfl⟩ := runs
    exact not_handed none₁ none₄ whole
  obtain ⟨ready, _, deposited⟩ := @depositUntil_new stop l (partsIn before) (partsIn before).card k m d
    type tm inside missing num done blob
  rcases crash with ⟨rfl, none_⟩ | rfl | ⟨rfl, last⟩
  · rw [if_pos (empty none_)] at dataStop
    obtain ⟨s, left, survives⟩ := crash_leaves after room limitSmall rfl ran dataStop
    rw [survives]
    rintro ⟨db₃, handed₃, runs, _⟩
    cases after with
    | nil =>
      have positive := l.parts_pos
      rw [partsIn, List.map_nil, List.toFinset_nil] at all
      rw [← Finset.card_range l.parts, ← all] at positive
      cases positive
    | cons e rest =>
      rw [deliver_orphan (ownLater e List.mem_cons_self) left] at runs
      cases runs
  · simp only [↓reduceIte] at deposited
    exact unheard ((works _ (by simp) (by simp)).trans deposited) (.inr ⟨_, _, rfl, num, done, rfl⟩)
      (.inl (by omega))
  · simp only [reduceCtorEq, ↓reduceIte] at deposited
    have filed' : Filed l (insert k (partsIn before)) ((partsIn before).card + 1)
        ⟨some (counted (l.inbound k type tm) m),
          some { d with message := l.stored (insert k (partsIn before)) }⟩ := by
      refine .inr ⟨_, _, rfl, (counted_fragsNum _ _).trans num, ?_, rfl⟩
      rw [counted_fragsDone, done]
      omega
    exact unheard ((works _ (by simp) (by simp)).trans deposited) filed' (.inr last)

theorem survives_of_not_lost (recovers : ¬ Lost l (partsIn before) k stop) :
    Survives w l db before stop f after := by
  obtain ⟨inside, type, tm, rfl⟩ := delivers.eq
  -- what is left is handed over by the second process
  have heard : ∀ {db₁ : Db} {handed₁ : List (Option Handed)} {r' : Rows} {ready : Option MsgReady}
      {shown : Finset Nat}, deliverAll w.limit db before = .ok (db₁, handed₁) → AgreeOff l.key db db₁ →
      receiveUntil w.limit stop (l.inbound k type tm) (rows db₁ l.key) = .ok (r', ready) →
      Filed l shown shown.card r' → shown ⊂ Finset.range l.parts →
      Survives w l db before stop (l.inbound k type tm) after := by
    intro db₁ handed₁ r' ready shown ran agree step filed within
    obtain ⟨s, left, survives⟩ := crash_leaves after room limitSmall rfl ran step
    have filed' : Filed l shown shown.card (rows s.db l.key) := by
      rw [left]
      exact filed
    have went := handing_whole legible fits ownLater within filed'
    change if shown ∪ partsIn after = _ then _ else _ at went
    rw [all, if_pos (Finset.union_eq_right.mpr within.subset)] at went
    obtain ⟨db₃, handed₃, runs, ⟨type, member⟩, _⟩ := went
    exact survives.mpr ⟨db₃, handed₃, runs, type,
      List.mem_append_right _ (List.mem_cons_of_mem _ member)⟩
  rcases first_process legible fits own absent with ⟨complete, handing⟩ | ⟨within, silent⟩
  · obtain ⟨db₁, handed₁, ran, ⟨type', member⟩, agree, finished⟩ := handing
    obtain ⟨s, left, survives⟩ := crash_leaves after room limitSmall rfl ran
      (@receiveUntil_finished w.limit stop _ (l.inbound k type tm) finished)
    have closed : Finished (rows s.db l.key) := by
      rw [left]
      exact finished
    obtain ⟨db₃, handed₃, runs, _⟩ := @silent_finished w.limit l s.db after ownLater closed
    exact survives.mpr ⟨db₃, handed₃, runs, type', List.mem_append_left _ member⟩
  obtain ⟨db₁, handed₁, ran, _, agree, filed, empty⟩ := silent
  by_cases present : k ∈ partsIn before
  · exact heard ran agree (receiveUntil_shown type tm legible inside present filed) filed within
  have extended : insert k (partsIn before) ⊆ Finset.range l.parts :=
    Finset.insert_subset (Finset.mem_range.mpr inside) within.subset
  have card : (insert k (partsIn before)).card = (partsIn before).card + 1 :=
    Finset.card_insert_of_notMem present
  obtain ⟨m, d, num, done, blob, dataStop, metaStop, works⟩ := filed_opens (k := k) type tm fits filed
  obtain ⟨ready, whole, deposited⟩ := @depositUntil_new stop l (partsIn before) (partsIn before).card
    k m d type tm inside present num done blob
  have step := fun notData notMeta => (works stop notData notMeta).trans deposited
  have more : Filed l (insert k (partsIn before)) (insert k (partsIn before)).card
      ⟨some (counted (l.inbound k type tm) m),
        some { d with message := l.stored (insert k (partsIn before)) }⟩ := by
    refine .inr ⟨_, _, rfl, (counted_fragsNum _ _).trans num, ?_, rfl⟩
    rw [counted_fragsDone, done, card]
    omega
  by_cases last : insert k (partsIn before) = Finset.range l.parts
  · have count : (partsIn before).card + 1 = l.parts := by
      rw [← card, last, Finset.card_range]
    rw [last, l.stored_all] at whole
    -- the callback was made before the crash
    have called : ∀ {r' : Rows}, receiveUntil w.limit stop (l.inbound k type tm) (rows db₁ l.key) =
        .ok (r', some ready) → (∀ s : State, rows s.db l.key = r' →
          ∃ db₃ handed₃, deliverAll w.limit s.db after = .ok (db₃, handed₃)) →
        Survives w l db before stop (l.inbound k type tm) after := by
      intro r' step returns
      obtain ⟨s, left, survives⟩ := crash_leaves after room limitSmall rfl ran step
      obtain ⟨db₃, handed₃, runs⟩ := returns s left
      refine survives.mpr ⟨db₃, handed₃, runs, type, List.mem_append_right _ ?_⟩
      rw [Option.map_some, whole]
      exact List.mem_cons_self
    cases stop with
    | dataInsert =>
      have notFirst : partsIn before ≠ ∅ := fun none_ => recovers ⟨present, .inl ⟨rfl, none_⟩⟩
      rw [if_neg (filed.ne_empty notFirst)] at dataStop
      exact heard ran agree dataStop filed within
    | metaInsert => exact heard ran agree metaStop (.inr ⟨m, d, rfl, num, done, blob⟩) within
    | blobWrite => exact absurd ⟨present, .inr (.inl rfl)⟩ recovers
    | counterUpdate => exact absurd ⟨present, .inr (.inr ⟨rfl, last⟩)⟩ recovers
    | readyCallback =>
      simp only [reduceCtorEq, count, ↓reduceIte, ne_eq, not_false_eq_true, forall_const] at step
      refine called step fun s left => ?_
      rw [last, Finset.card_range] at more
      rw [last] at left
      obtain ⟨db₃, handed₃, runs, _⟩ := silent_lossy legible fits ownLater (Finset.Subset.refl _)
        (.inr rfl) (left ▸ more)
      exact ⟨db₃, handed₃, runs⟩
    | dataDelete =>
      simp only [reduceCtorEq, count, ↓reduceIte, ne_eq, not_false_eq_true, forall_const] at step
      refine called step fun s left => ?_
      have closed : Finished (rows s.db l.key) := by
        rw [left]
        exact ⟨rfl, rfl⟩
      obtain ⟨db₃, handed₃, runs, _⟩ := @silent_finished w.limit l s.db after ownLater closed
      exact ⟨db₃, handed₃, runs⟩
  · have count : (partsIn before).card + 1 ≠ l.parts := by
      intro count
      exact last (Finset.eq_of_subset_of_card_le extended (by rw [Finset.card_range, card, count]))
    have proper := Finset.ssubset_iff_subset_ne.mpr ⟨extended, last⟩
    cases stop with
    | dataInsert =>
      have notFirst : partsIn before ≠ ∅ := fun none_ => recovers ⟨present, .inl ⟨rfl, none_⟩⟩
      rw [if_neg (filed.ne_empty notFirst)] at dataStop
      exact heard ran agree dataStop filed within
    | metaInsert => exact heard ran agree metaStop (.inr ⟨m, d, rfl, num, done, blob⟩) within
    | blobWrite => exact absurd ⟨present, .inr (.inl rfl)⟩ recovers
    | counterUpdate | readyCallback | dataDelete =>
      simp only [reduceCtorEq, count, ↓reduceIte, ne_eq, not_false_eq_true, forall_const] at step
      exact heard ran agree step more proper

/-- A letter whose fragments all begin with a byte that is not zero survives a
crash in a call of `dbInsertInboundFragment` exactly if the crash comes neither
between the two inserts of its first fragment, nor between the write and the
count of a new one, nor between the last count and the call of the client. -/
theorem receiving_survives_iff :
    Survives w l db before stop f after ↔ ¬ Lost l (partsIn before) k stop :=
  ⟨fun survives lost => not_survives_of_lost legible fits absent room limitSmall own ownLater all delivers lost
    survives, survives_of_not_lost legible fits absent room limitSmall own ownLater all delivers⟩

end Crash

/-- A receiver with nothing to send. -/
def receiver : World := scripted { maxMessageLength := 64 } [] []

theorem legible_uniform : Legible (uniformLetter 1) := by
  unfold Legible
  decide +kernel

theorem uniform_first : 0 < (uniformLetter 1).parts := by decide +kernel

theorem uniform_second : 1 < (uniformLetter 1).parts := by decide +kernel

/-- Both fragments of the letter in turn. -/
def inTurn : List Delivery :=
  [delivery (uniformLetter 1) 0 uniform_first 0 9, delivery (uniformLetter 1) 1 uniform_second 0 9]

/-- The first part, then a crash while the second is being stored. -/
theorem receiving_survives_before_delete :
    Survives receiver (uniformLetter 1) {} (inTurn.take 1) .readyCallback
      ((uniformLetter 1).inbound 1 0 8) inTurn := by
  have own : ∀ d ∈ inTurn, d.letter = uniformLetter 1 := by simp [inTurn, delivery]
  have all : partsIn inTurn = Finset.range (uniformLetter 1).parts := by decide +kernel
  refine (receiving_survives_iff legible_uniform (by decide +kernel) rfl (by decide) (by decide)
    (fun d member => own d (List.mem_of_mem_take member)) own all
    (delivers_inbound uniform_second 0 8)).mpr ?_
  rintro ⟨_, ⟨crash, _⟩ | crash | ⟨crash, _⟩⟩ <;> cases crash

/-- A crash between the two inserts of the first fragment leaves a row that
makes every later fragment abort. -/
theorem crash_between_inserts :
    ¬ Survives receiver (uniformLetter 1) {} [] .dataInsert ((uniformLetter 1).inbound 0 0 8) inTurn := by
  have own : ∀ d ∈ inTurn, d.letter = uniformLetter 1 := by simp [inTurn, delivery]
  have all : partsIn inTurn = Finset.range (uniformLetter 1).parts := by decide +kernel
  exact not_survives_of_lost legible_uniform (by decide +kernel) rfl (by decide) (by decide) (by simp) own all
    (delivers_inbound uniform_first 0 8) ⟨by decide, .inl ⟨rfl, rfl⟩⟩

end Defragmenter.InboundCrash
