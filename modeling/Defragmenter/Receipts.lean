import Defragmenter.Basics
import Defragmenter.SparseSearch

/-! The table of receipts the sender is waiting for: records in the order of
their numbers between two ends, with a hole wherever a receipt has come in or
expired. `findReceipt` is the sparse search at this table. -/
namespace Defragmenter.Receipts
open SparseSearch

/-- `struct receipt_record`; `msg` is the address of the message. -/
structure ReceiptRecord where
  receipt : Nat := 0
  msg : Nat := 0
  partNo : Nat := 0
  timestamp : Nat := 0
  deriving DecidableEq, Repr

/-- `receipts`, `receiptsLo`, `receiptsHi`, `receiptsNum` and `receiptsAlloc`.
Memory the table does not own yet is all zero, as `calloc` and `memRealloc`
hand it out. -/
structure ReceiptTable where
  receipts : Nat → ReceiptRecord := fun _ => {}
  lo : Nat := 0
  hi : Nat := 0
  num : Nat := 0
  alloc : Nat := 0

def receiptsInitialize : ReceiptTable := { alloc := 32 }

namespace ReceiptTable
variable (t : ReceiptTable)

/-- The number in a slot, zero for a hole. -/
def key (j : Nat) : Nat := (t.receipts j).receipt

/-- `none` stands for the index -1. -/
def findReceipt (receipt : Nat) : Option Nat :=
  if t.lo = t.hi then none else some (search t.key receipt (t.hi - t.lo) t.lo t.hi)

/-- `while (wanted > alloc) alloc *= 2`; `fuel` bounds the rounds. -/
def growTo (wanted : Nat) : Nat → Nat → Nat
  | 0, alloc => alloc
  | fuel + 1, alloc => if alloc < wanted then growTo wanted fuel (2 * alloc) else alloc

/-- The macro `MVA` with a shift to the right. -/
def moveUp (receipts : Nat → ReceiptRecord) (idx1 idx2 idxDelta : Nat) : Nat → ReceiptRecord :=
  fun k =>
    if idx1 ≤ k ∧ k < idx1 + idxDelta then {}
    else if idx1 + idxDelta ≤ k ∧ k < idx2 + idxDelta then receipts (k - idxDelta)
    else receipts k

def addReceipt (r : ReceiptRecord) : ReceiptTable :=
  if t.hi = 0 ∨ t.key (t.hi - 1) < r.receipt then
    { t with
      receipts := Function.update t.receipts t.hi r
      hi := t.hi + 1
      num := t.num + 1
      alloc := if t.hi = t.alloc then 2 * t.alloc else t.alloc }
  else
    let recIdx := match t.findReceipt r.receipt with
      | none => 0
      | some j => j + 1
    if t.key recIdx ≠ 0 then
      -- the records above move up, `receiptsHi` stays where it is
      { t with
        receipts := Function.update (moveUp t.receipts recIdx t.hi 16) recIdx r
        num := t.num + 1
        alloc := growTo (t.hi + 16) (t.hi + 16) t.alloc }
    else { t with receipts := Function.update t.receipts recIdx r, num := t.num + 1 }

/-- `receipts[j].receipt = 0`. -/
def clear (j : Nat) : ReceiptTable :=
  { t with receipts := Function.update t.receipts j { t.receipts j with receipt := 0 } }

/-- `do hi--; while (lo < hi && !receipts[hi-1].receipt)`, once it has been
decremented; `room` bounds the further rounds. -/
def lastHeld : Nat → Nat → Nat
  | 0, hi => hi
  | room + 1, hi => if t.key (hi - 1) = 0 then lastHeld room (hi - 1) else hi

/-- The end of `tryProcessReceipt`: the ends of the table move in over holes. -/
def trim (recIdx : Nat) : ReceiptTable :=
  let t :=
    if recIdx = t.lo then { t with lo := nextHeld t.key (t.hi - (t.lo + 1)) (t.lo + 1) }
    else if recIdx + 1 = t.hi then { t with hi := t.lastHeld (t.hi - 1 - t.lo) (t.hi - 1) }
    else t
  if t.lo = t.hi then { t with lo := 0, hi := 0 } else t

/-- Every held slot lies between the ends, and numbers grow with their slots. -/
structure Ordered : Prop where
  inside : ∀ j, t.key j ≠ 0 → t.lo ≤ j ∧ j < t.hi
  increasing : ∀ i j, i < j → t.key i ≠ 0 → t.key j ≠ 0 → t.key i < t.key j
  ends : t.lo ≤ t.hi

variable {t} {i j k n : Nat} {r : ReceiptRecord}

@[simp] theorem clear_lo : (t.clear j).lo = t.lo := rfl
@[simp] theorem clear_hi : (t.clear j).hi = t.hi := rfl
@[simp] theorem clear_num : (t.clear j).num = t.num := rfl

theorem receipts_clear_ne (different : k ≠ j) : (t.clear j).receipts k = t.receipts k := by
  simp [clear, different]

@[simp] theorem key_clear : (t.clear j).key k = if k = j then 0 else t.key k := by
  by_cases same : k = j
  · subst same
    simp [clear, key]
  · simp [clear, key, same]

@[simp] theorem receipts_trim : (t.trim j).receipts = t.receipts := by
  unfold trim
  dsimp only
  split <;> split <;> (try split) <;> rfl

@[simp] theorem key_trim : (t.trim j).key k = t.key k := by
  rw [key, receipts_trim, key]

theorem Ordered.sorted (ordered : t.Ordered) : Sorted t.key t.lo t.hi :=
  fun i j _ before _ heldI heldJ => ordered.increasing i j before heldI heldJ

/-- Slots of one number are one slot. -/
theorem Ordered.injective (ordered : t.Ordered) (held : t.key i ≠ 0) (same : t.key i = t.key j) :
    i = j := by
  have insideI := ordered.inside i held
  have insideJ := ordered.inside j (same ▸ held)
  exact ordered.sorted.injective insideI.1 insideI.2 insideJ.1 insideJ.2 held same

/-- `findReceipt` finds a held number exactly if its slot is not hidden. -/
theorem findReceipt_iff (ordered : t.Ordered) (held : t.key j ≠ 0) :
    t.findReceipt (t.key j) = some j ↔ ¬ Hidden t.key t.lo t.hi j := by
  obtain ⟨lower, upper⟩ := ordered.inside j held
  rw [findReceipt, if_neg (by omega), Option.some.injEq]
  exact search_eq_iff ordered.sorted lower upper held

theorem ordered_initialize : receiptsInitialize.Ordered where
  inside := fun _ held => absurd rfl held
  increasing := fun _ _ _ held => absurd rfl held
  ends := Nat.le_refl 0

theorem ordered_clear (ordered : t.Ordered) : (t.clear j).Ordered where
  inside k held := by
    rw [key_clear] at held
    split at held
    · exact absurd rfl held
    · exact ordered.inside k held
  increasing i k before heldI heldK := by
    rw [key_clear] at heldI heldK
    rw [key_clear, key_clear]
    split at heldI
    · exact absurd rfl heldI
    · rename_i differentI
      split at heldK
      · exact absurd rfl heldK
      · rename_i differentK
        rw [if_neg differentI, if_neg differentK]
        exact ordered.increasing i k before heldI heldK
  ends := ordered.ends

/-- A number above all held ones goes to the end of the table. -/
theorem addReceipt_append (above : ∀ j, t.key j < r.receipt) :
    t.addReceipt r = { t with
      receipts := Function.update t.receipts t.hi r
      hi := t.hi + 1
      num := t.num + 1
      alloc := if t.hi = t.alloc then 2 * t.alloc else t.alloc } := by
  rw [addReceipt, if_pos (.inr (above _))]

theorem receipts_append (above : ∀ j, t.key j < r.receipt) :
    (t.addReceipt r).receipts k = if k = t.hi then r else t.receipts k := by
  rw [addReceipt_append above]
  exact Function.update_apply ..

theorem key_addReceipt (above : ∀ j, t.key j < r.receipt) :
    (t.addReceipt r).key k = if k = t.hi then r.receipt else t.key k := by
  rw [addReceipt_append above]
  by_cases same : k = t.hi
  · subst same
    simp [key]
  · simp [key, same]

theorem ordered_addReceipt (ordered : t.Ordered) (above : ∀ j, t.key j < r.receipt) :
    (t.addReceipt r).Ordered where
  inside k held := by
    rw [key_addReceipt above] at held
    rw [addReceipt_append above]
    have := ordered.ends
    by_cases same : k = t.hi
    · subst same
      exact ⟨this, Nat.lt_succ_self _⟩
    · rw [if_neg same] at held
      have := ordered.inside k held
      exact ⟨this.1, Nat.lt_succ_of_lt this.2⟩
  increasing i k before heldI heldK := by
    rw [key_addReceipt above] at heldI heldK
    rw [key_addReceipt above, key_addReceipt above]
    by_cases lastI : i = t.hi
    · have differentK : k ≠ t.hi := by omega
      rw [if_neg differentK] at heldK
      have := ordered.inside k heldK
      omega
    · rw [if_neg lastI] at heldI ⊢
      by_cases lastK : k = t.hi
      · rw [if_pos lastK]
        exact above i
      · rw [if_neg lastK] at heldK ⊢
        exact ordered.increasing i k before heldI heldK
  ends := by
    have := ordered.ends
    rw [addReceipt_append above]
    exact Nat.le_succ_of_le this

/-- Whatever the numbers, a table holds nothing but what was put into it. -/
theorem receipts_addReceipt (t : ReceiptTable) (r : ReceiptRecord) (k : Nat) :
    (t.addReceipt r).receipts k = r ∨ (t.addReceipt r).receipts k = {} ∨
      ∃ k', (t.addReceipt r).receipts k = t.receipts k' := by
  have updated : ∀ (f : Nat → ReceiptRecord) (at_ : Nat),
      (∀ k, f k = {} ∨ ∃ k', f k = t.receipts k') →
      Function.update f at_ r k = r ∨ Function.update f at_ r k = {} ∨
        ∃ k', Function.update f at_ r k = t.receipts k' := by
    intro f at_ kept
    by_cases same : k = at_
    · subst same
      exact .inl (Function.update_self ..)
    · rw [Function.update_of_ne same]
      exact .inr (kept k)
  have same : ∀ k, t.receipts k = {} ∨ ∃ k', t.receipts k = t.receipts k' :=
    fun k => .inr ⟨k, rfl⟩
  have moved : ∀ idx k, moveUp t.receipts idx t.hi 16 k = {} ∨
      ∃ k', moveUp t.receipts idx t.hi 16 k = t.receipts k' := by
    intro idx k
    unfold moveUp
    split
    · exact .inl rfl
    · split
      · exact .inr ⟨_, rfl⟩
      · exact .inr ⟨_, rfl⟩
  unfold addReceipt
  split
  · exact updated _ _ same
  · dsimp only
    split
    · split
      · exact updated _ _ (moved _)
      · exact updated _ _ same
    · split
      · exact updated _ _ (moved _)
      · exact updated _ _ same

/-- A record below the end of the table is the new one or was below its end before. -/
theorem receipts_below_hi (t : ReceiptTable) (r : ReceiptRecord) (below : k < (t.addReceipt r).hi) :
    (t.addReceipt r).receipts k = r ∨ (t.addReceipt r).receipts k = {} ∨
      ∃ k' < t.hi, (t.addReceipt r).receipts k = t.receipts k' := by
  unfold addReceipt at below ⊢
  split at below
  · rename_i append
    rw [if_pos append]
    by_cases last : k = t.hi
    · subst last
      exact .inl (Function.update_self ..)
    · refine .inr (.inr ⟨k, by dsimp only at below; omega, ?_⟩)
      exact Function.update_of_ne last _ _
  · rename_i insert
    rw [if_neg insert]
    dsimp only at below ⊢
    have inserted : ∀ (at_ : Nat) (t' : ReceiptTable), t' = (if t.key at_ ≠ 0 then
        { t with
          receipts := Function.update (moveUp t.receipts at_ t.hi 16) at_ r
          num := t.num + 1
          alloc := growTo (t.hi + 16) (t.hi + 16) t.alloc }
        else { t with receipts := Function.update t.receipts at_ r, num := t.num + 1 }) →
        k < t'.hi → t'.receipts k = r ∨ t'.receipts k = {} ∨
          ∃ k' < t.hi, t'.receipts k = t.receipts k' := by
      rintro at_ t' rfl below
      by_cases here : k = at_
      · subst here
        split <;> exact .inl (Function.update_self ..)
      · split at below
        · rename_i taken
          rw [if_pos taken]
          dsimp only at below ⊢
          rw [Function.update_of_ne here, moveUp]
          split
          · exact .inr (.inl rfl)
          · split
            · exact .inr (.inr ⟨k - 16, by omega, rfl⟩)
            · exact .inr (.inr ⟨k, below, rfl⟩)
        · rename_i free
          rw [if_neg free]
          exact .inr (.inr ⟨k, below, Function.update_of_ne here _ _⟩)
    revert below
    cases t.findReceipt r.receipt with
    | none => exact inserted 0 _ rfl
    | some j => exact inserted (j + 1) _ rfl

/-! ## The ends -/

theorem lastHeld_le {room hi : Nat} :
    t.lastHeld room hi ≤ hi ∧ hi - room ≤ t.lastHeld room hi := by
  induction room generalizing hi with
  | zero => simp [lastHeld]
  | succ room ih =>
    rw [lastHeld]
    split
    · have := @ih (hi - 1)
      omega
    · omega

theorem hole_after_lastHeld {room hi : Nat} (from_ : t.lastHeld room hi ≤ k) (before : k < hi) :
    t.key k = 0 := by
  induction room generalizing hi with
  | zero =>
    simp only [lastHeld] at from_
    omega
  | succ room ih =>
    rw [lastHeld] at from_
    split at from_
    · rename_i hole
      by_cases last : k = hi - 1
      · rw [last, hole]
      · exact ih from_ (by omega)
    · omega

theorem ordered_trim (ordered : t.Ordered) (empty : t.key j = 0) (lower : t.lo ≤ j)
    (upper : j < t.hi) : (t.trim j).Ordered := by
  have up := @le_nextHeld Nat _ _ t.key (t.lo + 1) (t.hi - (t.lo + 1))
  have down := @lastHeld_le t (t.hi - 1 - t.lo) (t.hi - 1)
  have increasing : ∀ i k, i < k → (t.trim j).key i ≠ 0 → (t.trim j).key k ≠ 0 →
      (t.trim j).key i < (t.trim j).key k := by
    intro i k
    rw [key_trim, key_trim]
    exact ordered.increasing i k
  refine ⟨fun k held => ?_, increasing, ?_⟩
  · rw [key_trim] at held
    have inside := ordered.inside k held
    unfold trim
    by_cases low : j = t.lo
    · have above : nextHeld t.key (t.hi - (t.lo + 1)) (t.lo + 1) ≤ k := by
        refine Nat.le_of_not_lt fun before => ?_
        by_cases first : k = t.lo
        · rw [first, ← low] at held
          exact held empty
        · exact held (hole_before_nextHeld (by omega) before)
      simp only [low, ↓reduceIte]
      split
      · dsimp only at *
        omega
      · exact ⟨above, inside.2⟩
    · by_cases high : j + 1 = t.hi
      · have below : k < t.lastHeld (t.hi - 1 - t.lo) (t.hi - 1) := by
          refine Nat.lt_of_not_le fun after => ?_
          by_cases last : k = t.hi - 1
          · rw [last, show t.hi - 1 = j by omega] at held
            exact held empty
          · exact held (hole_after_lastHeld after (by omega))
        simp only [low, high, ↓reduceIte]
        split
        · dsimp only at *
          omega
        · exact ⟨inside.1, below⟩
      · simp only [low, high, ↓reduceIte]
        split
        · omega
        · exact inside
  · unfold trim
    by_cases low : j = t.lo
    · simp only [low, ↓reduceIte]
      split
      · exact Nat.le_refl 0
      · dsimp only
        omega
    · by_cases high : j + 1 = t.hi
      · simp only [low, high, ↓reduceIte]
        split
        · exact Nat.le_refl 0
        · dsimp only
          omega
      · simp only [low, high, ↓reduceIte]
        split
        · exact Nat.le_refl 0
        · exact ordered.ends

end ReceiptTable

end Defragmenter.Receipts
