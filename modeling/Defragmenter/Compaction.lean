import Defragmenter.ReceiptBounds
import Mathlib.Algebra.Order.BigOperators.Group.List

/-! `compressReceipts`, which trusts `receiptsNum` for the size of the new array
and for its new end. The count goes up with every record and down with every
expiry; a receipt that comes in does not change it. -/
namespace Defragmenter.Compaction
open Receipts Runs Sender ReceiptLedger ReceiptBounds

/-- The loop over `n` slots from `i` on: held records go to `r` from `r1` on. -/
def compressFrom (receipts : Nat → ReceiptRecord) :
    Nat → Nat → (Nat → ReceiptRecord) → Nat → (Nat → ReceiptRecord) × Nat
  | 0, _, r, r1 => (r, r1)
  | n + 1, i, r, r1 =>
    if (receipts i).receipt ≠ 0 then
      compressFrom receipts n (i + 1) (Function.update r r1 (receipts i)) (r1 + 1)
    else compressFrom receipts n (i + 1) r r1

/-- The loop over the whole table, into an array that is all zero. -/
def compressed (t : ReceiptTable) : (Nat → ReceiptRecord) × Nat :=
  compressFrom t.receipts (t.hi - t.lo) t.lo (fun _ => {}) 0

def compressReceipts (t : ReceiptTable) : ReceiptTable where
  receipts := (compressed t).1
  lo := 0
  hi := t.num
  num := t.num
  alloc := t.num * 2

/-- The slots of the new array that are written. -/
def compressWrites (t : ReceiptTable) : List Nat := List.range (compressed t).2

/-- The records between the ends, in their order. -/
def heldRecords (t : ReceiptTable) : List ReceiptRecord :=
  ((List.range' t.lo (t.hi - t.lo)).filter (t.key · ≠ 0)).map t.receipts

/-- The count is right, and compaction keeps exactly the records, inside its array,
with room for one more. -/
structure Compacts (l : Ledger) : Prop where
  counted : l.table.num = (heldRecords l.table).length
  same : (List.range (compressReceipts l.table).hi).map (compressReceipts l.table).receipts = heldRecords l.table
  inside : ∀ k ∈ compressWrites l.table, k < (compressReceipts l.table).alloc
  next : ∀ r : ReceiptRecord, r.receipt ≠ 0 → Above l r.receipt →
    ∀ a ∈ addAccesses (compressReceipts l.table) r.receipt, a.1 < a.2

/-- The ledger of increasing numbers that these calls, last first, lead to. -/
abbrev Reaches (ops : List LedgerOp) (l : Ledger) : Prop := Run ledgerStep (Allowed Above) Opened ops l

/-- No receipt has come in for a record: whenever `tryProcessReceipt` ended, its
lookup had found none. -/
def NeverConfirmed (ops : List LedgerOp) : Prop :=
  ∀ earlier v, LedgerOp.finish :: earlier <:+ ops → Reaches earlier v → v.looked = none

variable {t : ReceiptTable} {l l' v : Ledger} {ops : List LedgerOp} {op : LedgerOp} {j k n i r1 : Nat}
  {receipts r : Nat → ReceiptRecord}

/-! ## The loop -/

/-- What the loop writes: the held records one behind the other. -/
theorem compressFrom_eq : (compressFrom receipts n i r r1).2 =
      r1 + ((List.range' i n).filter fun j => (receipts j).receipt ≠ 0).length ∧
    ∀ k, (compressFrom receipts n i r r1).1 k = if k < r1 then r k else
      ((((List.range' i n).filter fun j => (receipts j).receipt ≠ 0).map receipts)[k - r1]?).getD (r k) := by
  induction n generalizing i r r1 with
  | zero =>
    refine ⟨rfl, fun k => ?_⟩
    simp [compressFrom]
  | succ n ih =>
    rw [compressFrom, List.range'_succ]
    by_cases held : (receipts i).receipt = 0
    · rw [if_neg (not_not.mpr held), List.filter_cons_of_neg (by simpa using held)]
      exact ih
    · rw [if_pos held, List.filter_cons_of_pos (by simpa using held)]
      obtain ⟨count, contents⟩ := @ih (i + 1) (r1 + 1) (Function.update r r1 (receipts i))
      refine ⟨by rw [count, List.length_cons]; omega, fun k => ?_⟩
      rw [contents, List.map_cons]
      rcases Nat.lt_trichotomy k r1 with before | same | after
      · rw [if_pos (by omega), if_pos before, Function.update_of_ne (Nat.ne_of_lt before)]
      · subst same
        rw [if_pos (Nat.lt_succ_self k), if_neg (Nat.lt_irrefl k), Function.update_self, Nat.sub_self]
        rfl
      · rw [if_neg (by omega), if_neg (by omega), Function.update_of_ne (Nat.ne_of_gt after),
          show k - r1 = k - (r1 + 1) + 1 by omega, List.getElem?_cons_succ]

theorem compressed_count : (compressed t).2 = (heldRecords t).length := by
  rw [compressed, compressFrom_eq.1, heldRecords, List.length_map, Nat.zero_add]
  rfl

theorem compressed_contents : (compressed t).1 k = ((heldRecords t)[k]?).getD {} := by
  rw [compressed, compressFrom_eq.2, if_neg (Nat.not_lt_zero k), Nat.sub_zero]
  rfl

/-- With a right count the new range is the held records. -/
theorem compress_range (counted : t.num = (heldRecords t).length) :
    (List.range (compressReceipts t).hi).map (compressReceipts t).receipts = heldRecords t := by
  have count : (compressReceipts t).hi = (heldRecords t).length := counted
  rw [count]
  refine List.ext_getElem? fun k => ?_
  by_cases inside : k < (heldRecords t).length
  · rw [List.getElem?_map, List.getElem?_range inside, Option.map_some]
    change some ((compressed t).1 k) = _
    rw [compressed_contents, List.getElem?_eq_getElem inside]
    rfl
  · rw [List.getElem?_eq_none (by simpa using inside), List.getElem?_eq_none (by omega)]

/-! ## The count -/

theorem mem_heldRecords (ordered : t.Ordered) {r : ReceiptRecord} : r ∈ heldRecords t ↔ Holds t r := by
  rw [holds_iff ordered, heldRecords, List.mem_map]
  constructor
  · rintro ⟨j, member, rfl⟩
    exact ⟨j, of_decide_eq_true (List.mem_filter.mp member).2, rfl⟩
  · rintro ⟨j, held, rfl⟩
    have inside := ordered.inside j held
    refine ⟨j, List.mem_filter.mpr ⟨List.mem_range'_1.mpr (by omega), decide_eq_true held⟩, rfl⟩

/-- The records between the ends are the live ones. -/
theorem heldRecords_live (intact : Intact l) : (heldRecords l.table).Perm l.live := by
  refine (List.perm_ext_iff_of_nodup ?_ intact.once).mpr fun r => ?_
  · refine List.Nodup.map_on ?_ ((List.nodup_range' (s := l.table.lo)).filter _)
    intro i memberI j memberJ same
    have held : l.table.key i ≠ 0 := of_decide_eq_true (List.mem_filter.mp memberI).2
    exact intact.ordered.injective held (congrArg ReceiptRecord.receipt same)
  · rw [mem_heldRecords intact.ordered, intact.holds]

theorem intact_reached (run : Reaches ops l) : Intact l := intact_run (roomy_of_increasing run)

theorem add_num {r : ReceiptRecord} : (t.addReceipt r).num = t.num + 1 := by
  by_cases last : t.hi = 0 ∨ t.key (t.hi - 1) < r.receipt
  · rw [ReceiptTable.addReceipt, if_pos last]
  · rw [addReceipt_behind last]
    split <;> rfl

theorem neverConfirmed_cons (run : Reaches ops l) :
    NeverConfirmed (op :: ops) ↔ NeverConfirmed ops ∧ (op = .finish → l.looked = none) := by
  constructor
  · intro never
    refine ⟨fun earlier v early => never earlier v (early.trans (List.suffix_cons op ops)), ?_⟩
    rintro rfl
    exact never ops l (List.suffix_refl _) run
  · rintro ⟨never, last⟩ earlier v early reached
    rcases List.suffix_cons_iff.mp early with same | early
    · cases same
      rw [Run.unique run reached]
      exact last rfl
    · exact never earlier v early reached

/-- The count is too high by the records whose receipts came in. -/
theorem count_of_run (run : Reaches ops l) :
    ∃ confirmed, l.table.num = l.live.length + confirmed ∧ (confirmed = 0 ↔ NeverConfirmed ops) := by
  induction run with
  | nil opened =>
    obtain rfl := opened
    refine ⟨0, rfl, ⟨fun _ earlier v early => ?_, fun _ => rfl⟩⟩
    cases List.suffix_nil.mp early
  | @cons ops l l' op run allowed stepped ih =>
    obtain ⟨confirmed, count, never⟩ := ih
    have intact := intact_reached run
    rw [neverConfirmed_cons run, ← never]
    cases op with
    | add r =>
      cases stepped
      refine ⟨confirmed, ?_, by simp⟩
      dsimp only
      rw [add_num, List.length_cons, count]
      omega
    | look receipt =>
      refine ⟨confirmed, ?_, by simp⟩
      simp only [ledgerStep] at stepped
      split at stepped
      · cases stepped
        exact count
      · split at stepped <;> cases stepped <;> exact count
    | finish =>
      simp only [ledgerStep] at stepped
      split at stepped
      · rename_i idle
        cases stepped
        exact ⟨confirmed, count, by simp [idle]⟩
      · rename_i j r looked
        cases stepped
        obtain ⟨held, same⟩ := intact.looked j r looked
        have live : r ∈ l.live := (intact.holds r).mpr ((holds_iff intact.ordered).mpr ⟨j, held, same⟩)
        have positive := List.length_pos_of_mem live
        refine ⟨confirmed + 1, ?_, by simp [looked]⟩
        dsimp only
        have num : ((l.table.clear j).trim j).num = l.table.num := by
          unfold ReceiptTable.trim
          dsimp only
          split <;> split <;> (try split) <;> rfl
        rw [num, List.length_erase_of_mem live, count]
        omega
    | expire j =>
      cases stepped
      have live : l.table.receipts j ∈ l.live :=
        (intact.holds _).mpr ((holds_iff intact.ordered).mpr ⟨j, allowed.2, rfl⟩)
      have positive := List.length_pos_of_mem live
      refine ⟨confirmed, ?_, by simp⟩
      dsimp only
      rw [List.length_erase_of_mem live, count]
      omega

/-! ## Compaction -/

/-- A record behind the last one is written where the array grows, unless the
array has no slot that could be doubled. -/
theorem addAccesses_inside {t : ReceiptTable} {n : Nat} (last : t.hi = 0 ∨ t.key (t.hi - 1) < n)
    (fits : t.hi ≤ t.alloc) : (∀ a ∈ addAccesses t n, a.1 < a.2) ↔ 0 < t.alloc := by
  simp only [addAccesses, if_pos last]
  constructor
  · intro inside
    have written := inside (t.hi, _) (List.mem_append_right _ (List.mem_singleton_self _))
    dsimp only at written
    split at written <;> omega
  · intro allocated a member
    rcases List.mem_append.mp member with read | written
    · split at read
      · cases read
      · obtain rfl := List.mem_singleton.mp read
        dsimp only
        omega
    · obtain rfl := List.mem_singleton.mp written
      dsimp only
      split <;> omega

/-- Below a number above all others, the compacted table ends. -/
theorem compress_last (intact : Intact l) (counted : l.table.num = (heldRecords l.table).length)
    (above : Above l n) : (compressReceipts l.table).hi = 0 ∨
      (compressReceipts l.table).key ((compressReceipts l.table).hi - 1) < n := by
  rcases Nat.eq_zero_or_pos l.table.num with none | some
  · exact .inl none
  · refine .inr ?_
    have inside : l.table.num - 1 < (heldRecords l.table).length := by omega
    change ((compressed l.table).1 (l.table.num - 1)).receipt < n
    rw [compressed_contents, List.getElem?_eq_getElem inside, Option.getD_some]
    have member := (heldRecords_live intact).mem_iff.mp (List.getElem_mem inside)
    exact above _ (intact.numbers _ member)

/-- A right count is all that compaction needs, and a table that is not empty. -/
theorem compacts_iff_counted (intact : Intact l) :
    Compacts l ↔ l.table.num = l.live.length ∧ l.live ≠ [] := by
  have length := (heldRecords_live intact).length_eq
  constructor
  · intro compacts
    have counted := compacts.counted
    refine ⟨counted.trans length, fun none => ?_⟩
    rw [length, none, List.length_nil] at counted
    -- the next number finds an array of no slots
    have allocated := (addAccesses_inside (.inl counted) (Nat.le_mul_of_pos_right _ (by decide))).mp
      (compacts.next { receipt := l.added.sum + 1 } (Nat.succ_ne_zero _) ?_)
    · change 0 < l.table.num * 2 at allocated
      omega
    · intro k member
      exact Nat.lt_succ_of_le (List.le_sum_of_mem member)
  · rintro ⟨counted, some⟩
    have positive := List.length_pos_iff.mpr some
    have right := counted.trans length.symm
    refine ⟨right, compress_range right, fun k member => ?_, fun r number above => ?_⟩
    · have inside := List.mem_range.mp member
      rw [compressed_count] at inside
      change k < l.table.num * 2
      omega
    · refine (addAccesses_inside (compress_last intact right above) ?_).mpr ?_
      · exact Nat.le_mul_of_pos_right _ (by decide)
      · change 0 < l.table.num * 2
        omega

/-- Compaction is right exactly before the first receipt has come in for a record,
and while a record is live. -/
theorem compacts_iff (run : Reaches ops l) : Compacts l ↔ NeverConfirmed ops ∧ l.live ≠ [] := by
  obtain ⟨confirmed, count, never⟩ := count_of_run run
  rw [compacts_iff_counted (intact_reached run), ← never, count]
  constructor
  · rintro ⟨counted, some⟩
    exact ⟨by omega, some⟩
  · rintro ⟨none, some⟩
    exact ⟨by omega, some⟩

/-- One of two records expires. -/
theorem compacts_iff_expired : ∃ ops l, Reaches ops l ∧ l.live.map ReceiptRecord.receipt = [6] ∧ Compacts l := by
  obtain ⟨l, run, checked⟩ := @exists_run _ _ _ Opened ledgerStep (Allowed Above) _
    [.add { receipt := 5 }, .add { receipt := 6 }, .expire 0]
    (fun l => decide (l.live.map ReceiptRecord.receipt = [6])) {} rfl (by decide +kernel)
  have live := of_decide_eq_true checked
  have never : NeverConfirmed [.expire 0, .add { receipt := 6 }, .add { receipt := 5 }] :=
    fun earlier v early _ => absurd (early.subset List.mem_cons_self) (by decide)
  refine ⟨_, l, run, live, (compacts_iff run).mpr ⟨never, fun none => ?_⟩⟩
  rw [none] at live
  cases live

/-- The receipt of one of two records comes in: the count stays at two, and the
compacted table ends with a slot that holds nothing. -/
theorem confirmed_still_counted : ∃ ops l, Reaches ops l ∧ l.live.map ReceiptRecord.receipt = [6] ∧
    l.table.num = 2 ∧ (compressReceipts l.table).hi = 2 ∧ ¬ Compacts l := by
  obtain ⟨l, run, checked⟩ := @exists_run _ _ _ Opened ledgerStep (Allowed Above) _
    [.add { receipt := 5 }, .add { receipt := 6 }, .look 5, .finish]
    (fun l => decide (l.live.map ReceiptRecord.receipt = [6] ∧ l.table.num = 2)) {} rfl (by decide +kernel)
  obtain ⟨live, num⟩ := of_decide_eq_true checked
  refine ⟨_, l, run, live, num, num, fun compacts => ?_⟩
  have counted := ((compacts_iff_counted (intact_reached run)).mp compacts).1
  have one : l.live.length = 1 := by
    rw [← List.length_map (f := ReceiptRecord.receipt), live]
    rfl
  omega

end Defragmenter.Compaction
