import Defragmenter.Tracking

/-! The receipt table as what it is for: a map from numbers to records that are
added and removed one by one. Numbers that grow go to its end. Any other number
goes to the slot behind the place its lookup ends at, and that is right only if
there is a hole: records that are moved to make room leave the table. -/
namespace Defragmenter.ReceiptLedger
open SparseSearch Receipts Runs Sender Split Moves Tracking

/-- A table with what was put into it and not taken out yet. -/
structure Ledger where
  table : ReceiptTable := receiptsInitialize
  /-- The slot that `tryProcessReceipt` found, and the record in it then. -/
  looked : Option (Nat × ReceiptRecord) := none
  live : List ReceiptRecord := []
  /-- The numbers of all records there have been. -/
  added : List Nat := []

inductive LedgerOp where
  | add (r : ReceiptRecord)
  /-- The lookup that `tryProcessReceipt` begins with. -/
  | look (receipt : Nat)
  /-- Its end. What it sends comes in between. -/
  | finish
  /-- A record expires, and its slot is cleared. -/
  | expire (j : Nat)
  deriving DecidableEq

def ledgerStep : LedgerOp → Ledger → Except Fault Ledger
  | .add r, l => .ok { l with
      table := l.table.addReceipt r, live := r :: l.live, added := r.receipt :: l.added }
  | .look receipt, l =>
    match l.table.findReceipt receipt with
    | none => .ok l
    | some j =>
      if l.table.key j = receipt then .ok { l with looked := some (j, l.table.receipts j) } else .ok l
  | .finish, l =>
    match l.looked with
    | none => .ok l
    | some (j, r) =>
      .ok { l with table := (l.table.clear j).trim j, looked := none, live := l.live.erase r }
  | .expire j, l => .ok { l with
      table := { l.table.clear j with num := l.table.num - 1 }
      live := l.live.erase (l.table.receipts j) }

/-- The order of the calls, and what a new record's number may be. -/
def Allowed (admits : Ledger → Nat → Prop) (l : Ledger) : LedgerOp → Prop
  | .add r => r.receipt ≠ 0 ∧ admits l r.receipt
  | .look receipt => receipt ≠ 0 ∧ l.looked = none
  | .finish => True
  | .expire j => l.looked = none ∧ l.table.key j ≠ 0

instance {admits : Ledger → Nat → Prop} [∀ l n, Decidable (admits l n)] {l : Ledger} :
    DecidablePred (Allowed admits l) := fun op =>
  match op with
  | .add _ => inferInstanceAs (Decidable (_ ≠ 0 ∧ admits l _))
  | .look _ => inferInstanceAs (Decidable (_ ≠ 0 ∧ l.looked = none))
  | .finish => inferInstanceAs (Decidable True)
  | .expire _ => inferInstanceAs (Decidable (l.looked = none ∧ _ ≠ 0))

/-- An empty table. -/
def Opened (l : Ledger) : Prop := l = {}

/-- Above all numbers there have been. -/
def Above (l : Ledger) (n : Nat) : Prop := ∀ k ∈ l.added, k < n

/-- None of the numbers there have been. -/
def New (l : Ledger) (n : Nat) : Prop := n ∉ l.added

instance (l : Ledger) (n : Nat) : Decidable (Above l n) := inferInstanceAs (Decidable (∀ k ∈ l.added, k < n))
instance (l : Ledger) (n : Nat) : Decidable (New l n) := inferInstanceAs (Decidable (n ∉ l.added))

/-- The record is between the ends. -/
def Holds (t : ReceiptTable) (r : ReceiptRecord) : Prop :=
  r.receipt ≠ 0 ∧ ∃ k, t.lo ≤ k ∧ k < t.hi ∧ t.receipts k = r

/-- There is a place for the number: behind all others, or in the hole that
its lookup leads to. -/
inductive Roomy (t : ReceiptTable) (n : Nat) : Prop where
  | atEnd : (∀ j, t.key j ≠ 0 → t.key j < n) → Roomy t n
  /-- `a` is the last slot below; the lookup ends one slot further, or at `a`. -/
  | between {a : Nat} : n < t.key (t.hi - 1) → t.key a ≠ 0 → t.key a < n →
      (∀ j, a < j → t.key j ≠ 0 → n < t.key j) → ¬ Hidden t.key t.lo t.hi a →
      (Adjacent t.key t.lo t.hi a → ∀ j, a < j → t.key j ≠ 0 → a + 1 < j) →
      (¬ Adjacent t.key t.lo t.hi a → ∀ j, a < j → t.key j ≠ 0 → a + 2 < j) → Roomy t n
  | beforeAll : n < t.key (t.hi - 1) → (∀ j, t.key j ≠ 0 → n < t.key j) → t.key t.lo = 0 →
      (∀ j, t.key j ≠ 0 → t.lo + 2 < j) → Roomy t n

/-- Adding the record leaves the numbers between the ends in order, every record
there as it was, and the new one among them. -/
structure KeepsTable (t : ReceiptTable) (r : ReceiptRecord) : Prop where
  sorted : Sorted (t.addReceipt r).key (t.addReceipt r).lo (t.addReceipt r).hi
  kept : ∀ r', Holds t r' → Holds (t.addReceipt r) r'
  new : Holds (t.addReceipt r) r

/-- The record is in a slot of its own, in order. -/
structure Placed (t : ReceiptTable) (r : ReceiptRecord) (slot : Nat) : Prop where
  receipts : (t.addReceipt r).receipts = Function.update t.receipts slot r
  lo : (t.addReceipt r).lo = t.lo
  hi : t.hi ≤ (t.addReceipt r).hi
  inside : t.lo ≤ slot ∧ slot < (t.addReceipt r).hi
  free : t.key slot = 0
  below : ∀ k, k < slot → t.key k ≠ 0 → t.key k < r.receipt
  above : ∀ k, slot < k → t.key k ≠ 0 → r.receipt < t.key k

variable {t : ReceiptTable} {r : ReceiptRecord} {slot j k n : Nat}

/-! ## Where a record goes -/

theorem addReceipt_end (last : t.hi = 0 ∨ t.key (t.hi - 1) < r.receipt) :
    (t.addReceipt r).receipts = Function.update t.receipts t.hi r ∧ (t.addReceipt r).lo = t.lo ∧
      (t.addReceipt r).hi = t.hi + 1 := by
  rw [ReceiptTable.addReceipt, if_pos last]
  exact ⟨rfl, rfl, rfl⟩

/-- The slot behind the place at which the lookup of the number ends. -/
theorem addReceipt_inside (some : t.lo < t.hi) (last : ¬ (t.hi = 0 ∨ t.key (t.hi - 1) < r.receipt)) :
    (t.addReceipt r).lo = t.lo ∧ (t.addReceipt r).hi = t.hi ∧
      (t.addReceipt r).receipts = Function.update
        (if t.key (search t.key r.receipt (t.hi - t.lo) t.lo t.hi + 1) = 0 then t.receipts
          else ReceiptTable.moveUp t.receipts (search t.key r.receipt (t.hi - t.lo) t.lo t.hi + 1) t.hi 16)
        (search t.key r.receipt (t.hi - t.lo) t.lo t.hi + 1) r := by
  have found : t.findReceipt r.receipt = .some (search t.key r.receipt (t.hi - t.lo) t.lo t.hi) := by
    rw [ReceiptTable.findReceipt, if_neg (Nat.ne_of_lt some)]
  rw [ReceiptTable.addReceipt, if_neg last, found]
  dsimp only
  by_cases hole : t.key (search t.key r.receipt (t.hi - t.lo) t.lo t.hi + 1) = 0
  · rw [if_neg (not_not.mpr hole), if_pos hole]
    exact ⟨rfl, rfl, rfl⟩
  · rw [if_pos hole, if_neg hole]
    exact ⟨rfl, rfl, rfl⟩

/-- The lookup of an absent number ends behind the last slot below it. -/
theorem search_behind {a : Nat} (ordered : t.Ordered) (held : t.key a ≠ 0) (below : t.key a < n)
    (above : ∀ j, a < j → t.key j ≠ 0 → n < t.key j) (visible : ¬ Hidden t.key t.lo t.hi a) :
    (Adjacent t.key t.lo t.hi a → search t.key n (t.hi - t.lo) t.lo t.hi = a) ∧
      (¬ Adjacent t.key t.lo t.hi a → search t.key n (t.hi - t.lo) t.lo t.hi = a + 1) := by
  obtain ⟨lower, upper⟩ := ordered.inside a held
  have higher : ∀ k, a < k → k < t.hi → t.key k ≠ 0 → n < t.key k := fun k after _ => above k after
  constructor
  · exact search_adjacent ordered.sorted lower upper held (Nat.le_of_lt below) higher
  · intro apart
    rw [search_visible ordered.sorted lower upper held (Nat.le_of_lt below) higher visible apart, if_pos below]

theorem Placed.of_hole (ordered : t.Ordered) (last : r.receipt < t.key (t.hi - 1))
    (at_ : search t.key r.receipt (t.hi - t.lo) t.lo t.hi + 1 = slot) (free : t.key slot = 0)
    (below : ∀ k, k < slot → t.key k ≠ 0 → t.key k < r.receipt)
    (above : ∀ k, slot < k → t.key k ≠ 0 → r.receipt < t.key k) : Placed t r slot := by
  have held : t.key (t.hi - 1) ≠ 0 := by omega
  have inside := ordered.inside _ held
  have notEnd : ¬ (t.hi = 0 ∨ t.key (t.hi - 1) < r.receipt) := by omega
  obtain ⟨lo, hi, receipts⟩ := addReceipt_inside (by omega) notEnd
  rw [at_, if_pos free] at receipts
  have from_ := (@search_mem _ _ _ t.key (t.hi - t.lo) t.lo t.hi r.receipt (by omega)).1
  have upper : slot < t.hi := by
    refine Nat.lt_of_not_le fun beyond => ?_
    have := below (t.hi - 1) (by omega) held
    omega
  exact ⟨receipts, lo, Nat.le_of_eq hi.symm, ⟨by omega, by omega⟩, free, below, above⟩

/-- A number there is a place for is put there. -/
theorem placed_of_roomy (ordered : t.Ordered) (number : r.receipt ≠ 0) (roomy : Roomy t r.receipt) :
    ∃ slot, Placed t r slot := by
  cases roomy with
  | atEnd all =>
    have last : t.hi = 0 ∨ t.key (t.hi - 1) < r.receipt := by
      by_cases held : t.key (t.hi - 1) = 0
      · exact .inr (by omega)
      · exact .inr (all _ held)
    obtain ⟨receipts, lo, hi⟩ := addReceipt_end last
    have free : t.key t.hi = 0 := by
      by_contra held
      exact Nat.lt_irrefl _ (ordered.inside _ held).2
    refine ⟨t.hi, receipts, lo, by omega, ⟨ordered.ends, by omega⟩, free, fun k _ => all k, fun k after held => ?_⟩
    have := (ordered.inside k held).2
    omega
  | @between a last held below above visible near far =>
    have ends := search_behind ordered held below above visible
    have lower : ∀ k, k ≤ a → t.key k ≠ 0 → t.key k < r.receipt := by
      intro k le heldK
      rcases Nat.lt_or_eq_of_le le with before | rfl
      · exact Nat.lt_trans (ordered.increasing k a before heldK held) below
      · exact below
    by_cases adjacent : Adjacent t.key t.lo t.hi a
    · refine ⟨a + 1, .of_hole ordered last (by rw [ends.1 adjacent]) ?_ (fun k before => lower k (by omega))
        fun k after heldK => above k (by omega) heldK⟩
      by_contra heldSlot
      exact Nat.lt_irrefl _ (near adjacent _ (Nat.lt_succ_self a) heldSlot)
    · refine ⟨a + 2, .of_hole ordered last (by rw [ends.2 adjacent]) ?_ (fun k before heldK => ?_)
        fun k after heldK => above k (by omega) heldK⟩
      · by_contra heldSlot
        exact Nat.lt_irrefl _ (far adjacent _ (by omega) heldSlot)
      · refine lower k (Nat.le_of_not_lt fun after => ?_) heldK
        have := far adjacent k after heldK
        omega
  | beforeAll last above empty far =>
    have held : t.key (t.hi - 1) ≠ 0 := by omega
    have inside := ordered.inside _ held
    have ends := @search_from _ _ _ t.key t.hi (t.hi - t.lo) t.lo t.hi r.receipt (by omega) (Nat.le_refl _)
      (fun k _ _ => above k) (Nat.le_refl _)
    rw [empty, if_pos (Nat.pos_of_ne_zero number)] at ends
    refine ⟨t.lo + 2, .of_hole ordered last (by rw [ends]) ?_ (fun k before heldK => ?_) fun k _ => above k⟩
    · by_contra heldSlot
      exact Nat.lt_irrefl _ (far _ heldSlot)
    · have := far k heldK
      omega

theorem Placed.receipts_apply (placed : Placed t r slot) :
    (t.addReceipt r).receipts k = if k = slot then r else t.receipts k := by
  rw [placed.receipts, Function.update_apply]

theorem Placed.key_apply (placed : Placed t r slot) :
    (t.addReceipt r).key k = if k = slot then r.receipt else t.key k := by
  rw [ReceiptTable.key, placed.receipts_apply]
  split <;> rfl

theorem Placed.ordered (placed : Placed t r slot) (ordered : t.Ordered) : (t.addReceipt r).Ordered where
  inside k held := by
    rw [placed.key_apply] at held
    rw [placed.lo]
    split at held
    · rename_i here
      exact here ▸ placed.inside
    · have := ordered.inside k held
      have := placed.hi
      omega
  increasing i k before heldI heldK := by
    rw [placed.key_apply] at heldI heldK
    rw [placed.key_apply, placed.key_apply]
    by_cases hereI : i = slot
    · have otherK : k ≠ slot := by omega
      rw [if_neg otherK] at heldK
      rw [if_pos hereI, if_neg otherK]
      exact placed.above k (by omega) heldK
    · rw [if_neg hereI] at heldI ⊢
      by_cases hereK : k = slot
      · rw [if_pos hereK]
        exact placed.below i (by omega) heldI
      · rw [if_neg hereK] at heldK ⊢
        exact ordered.increasing i k before heldI heldK
  ends := by
    have := ordered.ends
    have := placed.hi
    have := placed.lo
    omega

theorem holds_iff (ordered : t.Ordered) : Holds t r ↔ ∃ j, t.key j ≠ 0 ∧ t.receipts j = r := by
  constructor
  · rintro ⟨number, j, _, _, rfl⟩
    exact ⟨j, number, rfl⟩
  · rintro ⟨j, held, rfl⟩
    have inside := ordered.inside j held
    exact ⟨held, j, inside.1, inside.2, rfl⟩

theorem Placed.holds_iff {r' : ReceiptRecord} (placed : Placed t r slot) (ordered : t.Ordered)
    (number : r.receipt ≠ 0) : Holds (t.addReceipt r) r' ↔ r' = r ∨ Holds t r' := by
  rw [ReceiptLedger.holds_iff (placed.ordered ordered), ReceiptLedger.holds_iff ordered]
  constructor
  · rintro ⟨j, held, rfl⟩
    rw [placed.key_apply] at held
    rw [placed.receipts_apply]
    by_cases here : j = slot
    · rw [if_pos here]
      exact .inl rfl
    · rw [if_neg here] at held ⊢
      exact .inr ⟨j, held, rfl⟩
  · rintro (rfl | ⟨j, held, rfl⟩)
    · refine ⟨slot, ?_, ?_⟩
      · rw [placed.key_apply, if_pos rfl]
        exact number
      · rw [placed.receipts_apply, if_pos rfl]
    · have other : j ≠ slot := fun same => held (same ▸ placed.free)
      refine ⟨j, ?_, ?_⟩
      · rw [placed.key_apply, if_neg other]
        exact held
      · rw [placed.receipts_apply, if_neg other]

theorem Placed.keepsTable (placed : Placed t r slot) (ordered : t.Ordered) (number : r.receipt ≠ 0) :
    KeepsTable t r where
  sorted := (placed.ordered ordered).sorted
  kept _ holds := (placed.holds_iff ordered number).mpr (.inr holds)
  new := (placed.holds_iff ordered number).mpr (.inl rfl)

/-! ## When a record is kept -/

/-- The last slot that is held by a number below, if there is one. -/
theorem exists_last_below (ordered : t.Ordered) (absent : ∀ j, t.key j ≠ n) :
    (∀ j, t.key j ≠ 0 → n < t.key j) ∨
      ∃ a, t.key a ≠ 0 ∧ t.key a < n ∧ ∀ j, a < j → t.key j ≠ 0 → n < t.key j := by
  by_cases some : ∃ a, t.key a ≠ 0 ∧ t.key a < n
  · refine .inr ?_
    obtain ⟨j, held, below⟩ := some
    have upper : j ≤ t.hi := Nat.le_of_lt (ordered.inside j held).2
    have found := @Nat.findGreatest_spec j (fun a => t.key a ≠ 0 ∧ t.key a < n) _ t.hi upper ⟨held, below⟩
    refine ⟨_, found.1, found.2, fun k after heldK => ?_⟩
    have inside := (ordered.inside k heldK).2
    have notBelow : ¬ t.key k < n := fun belowK =>
      Nat.findGreatest_is_greatest after (Nat.le_of_lt inside) ⟨heldK, belowK⟩
    have := absent k
    omega
  · refine .inl fun j held => ?_
    have notBelow : ¬ t.key j < n := fun below => some ⟨j, held, below⟩
    have := absent j
    omega

/-- A record that stays between the ends was not moved, and a free slot took the new one. -/
theorem placed_of_keepsTable (ordered : t.Ordered) (reset : t.lo = t.hi → t.hi = 0) (number : r.receipt ≠ 0)
    (absent : ∀ j, t.key j ≠ r.receipt) (keeps : KeepsTable t r)
    (last : ¬ (t.hi = 0 ∨ t.key (t.hi - 1) < r.receipt)) :
    Placed t r (search t.key r.receipt (t.hi - t.lo) t.lo t.hi + 1) := by
  have some : t.lo < t.hi := by
    have := ordered.ends
    omega
  obtain ⟨lo, hi, receipts⟩ := addReceipt_inside some last
  have lower : t.lo < search t.key r.receipt (t.hi - t.lo) t.lo t.hi + 1 :=
    Nat.lt_succ_of_le (search_mem (Nat.le_of_lt some)).1
  generalize search t.key r.receipt (t.hi - t.lo) t.lo t.hi + 1 = slot at *
  have greater := absent (t.hi - 1)
  have heldLast : t.key (t.hi - 1) ≠ 0 := by omega
  have hole : t.key slot = 0 := by
    -- otherwise the last record is moved behind the end
    by_contra heldSlot
    have inside := (ordered.inside slot heldSlot).2
    rw [if_neg heldSlot] at receipts
    obtain ⟨_, k, _, before, same⟩ := keeps.kept _ ((holds_iff ordered).mpr ⟨t.hi - 1, heldLast, rfl⟩)
    rw [hi] at before
    rw [receipts, Function.update_apply] at same
    split at same
    · exact greater (congrArg ReceiptRecord.receipt same).symm
    · unfold ReceiptTable.moveUp at same
      split at same
      · exact heldLast (congrArg ReceiptRecord.receipt same).symm
      · split at same
        · have := ordered.injective heldLast (congrArg ReceiptRecord.receipt same).symm
          omega
        · have := ordered.injective heldLast (congrArg ReceiptRecord.receipt same).symm
          omega
  rw [if_pos hole] at receipts
  have at_ : ∀ k, (t.addReceipt r).receipts k = if k = slot then r else t.receipts k := by
    intro k
    rw [receipts, Function.update_apply]
  have keys : ∀ k, (t.addReceipt r).key k = if k = slot then r.receipt else t.key k := by
    intro k
    rw [ReceiptTable.key, at_]
    split <;> rfl
  have upper : slot < t.hi := by
    obtain ⟨_, k, _, before, same⟩ := keeps.new
    rw [hi] at before
    rw [at_] at same
    split at same
    · omega
    · exact absurd (congrArg ReceiptRecord.receipt same) (absent k)
  have compared : ∀ i k, t.lo ≤ i → i < k → k < t.hi → (t.addReceipt r).key i ≠ 0 →
      (t.addReceipt r).key k ≠ 0 → (t.addReceipt r).key i < (t.addReceipt r).key k := by
    rw [← lo, ← hi]
    exact keeps.sorted
  refine ⟨receipts, lo, Nat.le_of_eq hi.symm, ⟨Nat.le_of_lt lower, hi.symm ▸ upper⟩, hole,
    fun k before held => ?_, fun k after held => ?_⟩
  · have inside := ordered.inside k held
    have less := compared k slot inside.1 before upper
    rw [keys, keys, if_neg (Nat.ne_of_lt before), if_pos rfl] at less
    exact less held number
  · have inside := ordered.inside k held
    have less := compared slot k (Nat.le_of_lt lower) after inside.2
    rw [keys, keys, if_neg (Nat.ne_of_gt after), if_pos rfl] at less
    exact less number held

theorem roomy_of_keepsTable (ordered : t.Ordered) (reset : t.lo = t.hi → t.hi = 0) (number : r.receipt ≠ 0)
    (absent : ∀ j, t.key j ≠ r.receipt) (keeps : KeepsTable t r) : Roomy t r.receipt := by
  by_cases last : t.hi = 0 ∨ t.key (t.hi - 1) < r.receipt
  · obtain ⟨receipts, lo, hi⟩ := addReceipt_end last
    have keys : ∀ k, (t.addReceipt r).key k = if k = t.hi then r.receipt else t.key k := by
      intro k
      rw [ReceiptTable.key, receipts, Function.update_apply]
      split <;> rfl
    refine .atEnd fun j held => ?_
    have inside := ordered.inside j held
    have less := keeps.sorted j t.hi (by omega) inside.2 (by omega)
    rw [keys, keys, if_neg (Nat.ne_of_lt inside.2), if_pos rfl] at less
    exact less held number
  · have placed := placed_of_keepsTable ordered reset number absent keeps last
    have greater : r.receipt < t.key (t.hi - 1) := by
      have := absent (t.hi - 1)
      omega
    have some : t.lo < t.hi := by
      have := ordered.ends
      omega
    rcases exists_last_below ordered absent with above | ⟨a, held, below, above⟩
    · have ends := @search_from _ _ _ t.key t.hi (t.hi - t.lo) t.lo t.hi r.receipt some (Nat.le_refl _)
        (fun k _ _ => above k) (Nat.le_refl _)
      have empty : t.key t.lo = 0 := by
        by_contra heldLo
        have := above t.lo heldLo
        rw [if_neg (by omega)] at ends
        rw [ends] at placed
        have := placed.below t.lo (Nat.lt_succ_self _) heldLo
        omega
      rw [empty, if_pos (Nat.pos_of_ne_zero number)] at ends
      rw [ends] at placed
      refine .beforeAll greater above empty fun j heldJ => ?_
      have less := above j heldJ
      rcases Nat.lt_trichotomy j (t.lo + 1 + 1) with before | same | after
      · have := placed.below j before heldJ
        omega
      · exact absurd (same ▸ placed.free) heldJ
      · exact after
    · have visible : ¬ Hidden t.key t.lo t.hi a := by
        intro hidden
        have inside := ordered.inside a held
        have ends := search_hidden ordered.sorted inside.1 inside.2 held (Nat.le_of_lt below)
          (fun k after _ => above k after) hidden
        rcases Nat.lt_or_eq_of_le (Nat.succ_le_of_lt ends) with before | same
        · have := placed.above a before held
          omega
        · exact held (same ▸ placed.free)
      have ends := search_behind ordered held below above visible
      refine .between greater held below above visible (fun adjacent j after heldJ => ?_) fun apart j after heldJ => ?_
      · rw [ends.1 adjacent] at placed
        refine Nat.lt_of_le_of_ne after fun same => heldJ ?_
        rw [← same]
        exact placed.free
      · rw [ends.2 apart] at placed
        have less := above j after heldJ
        rcases Nat.lt_trichotomy j (a + 1 + 1) with before | same | beyond
        · have := placed.below j before heldJ
          omega
        · exact absurd (same ▸ placed.free) heldJ
        · exact beyond

/-- A new number is put into a table rightly exactly if there is a place for it. -/
theorem keepsTable_iff (ordered : t.Ordered) (reset : t.lo = t.hi → t.hi = 0) (number : r.receipt ≠ 0)
    (absent : ∀ j, t.key j ≠ r.receipt) : KeepsTable t r ↔ Roomy t r.receipt := by
  constructor
  · exact roomy_of_keepsTable ordered reset number absent
  · intro roomy
    obtain ⟨slot, placed⟩ := placed_of_roomy ordered number roomy
    exact placed.keepsTable ordered number

/-! ## Runs -/

/-- The table holds what is live, and the slot that was looked up still has its record. -/
structure Intact (l : Ledger) : Prop where
  ordered : l.table.Ordered
  reset : l.table.lo = l.table.hi → l.table.hi = 0
  holds : ∀ r, r ∈ l.live ↔ Holds l.table r
  once : l.live.Nodup
  numbers : ∀ r ∈ l.live, r.receipt ∈ l.added
  looked : ∀ j r, l.looked = some (j, r) → l.table.key j ≠ 0 ∧ l.table.receipts j = r

variable {l l' : Ledger} {op : LedgerOp} {ops : List LedgerOp}

theorem Intact.opened (opened : Opened l) : Intact l := by
  obtain rfl := opened
  refine ⟨ReceiptTable.ordered_initialize, fun _ => rfl, fun r => ?_, List.nodup_nil, fun r live => ?_, fun j r looked => ?_⟩
  · constructor
    · intro live
      cases live
    · rintro ⟨_, k, _, before, _⟩
      exact absurd before (Nat.not_lt_zero k)
  · cases live
  · cases looked

/-- The numbers in the table are numbers there have been. -/
theorem Intact.absent (intact : Intact l) (number : n ≠ 0) (new : New l n) : ∀ j, l.table.key j ≠ n := by
  rintro j rfl
  have holds := (holds_iff intact.ordered).mpr ⟨j, number, rfl⟩
  exact new (intact.numbers _ ((intact.holds _).mpr holds))

theorem Intact.atEnd (intact : Intact l) (above : Above l n) : Roomy l.table n := by
  refine .atEnd fun j held => ?_
  have holds := (holds_iff intact.ordered).mpr ⟨j, held, rfl⟩
  exact above _ (intact.numbers _ ((intact.holds _).mpr holds))

theorem Intact.add (intact : Intact l) (number : r.receipt ≠ 0) (new : New l r.receipt)
    (placed : Placed l.table r slot) : Intact { l with
      table := l.table.addReceipt r, live := r :: l.live, added := r.receipt :: l.added } where
  ordered := placed.ordered intact.ordered
  reset := by
    have inside := placed.inside
    have lo := placed.lo
    dsimp only
    omega
  holds r' := by
    rw [placed.holds_iff intact.ordered number, List.mem_cons, intact.holds]
  once := List.nodup_cons.mpr ⟨fun live => new (intact.numbers r live), intact.once⟩
  numbers r' member := by
    rcases List.mem_cons.mp member with rfl | live
    · exact List.mem_cons_self
    · exact List.mem_cons_of_mem _ (intact.numbers r' live)
  looked j r' looked := by
    obtain ⟨held, same⟩ := intact.looked j r' looked
    have other : j ≠ slot := fun here => held (here ▸ placed.free)
    rw [placed.key_apply, placed.receipts_apply, if_neg other, if_neg other]
    exact ⟨held, same⟩

/-- What is left once a slot is cleared. -/
theorem holds_clear {r' : ReceiptRecord} (ordered : t.Ordered) (held : t.key j ≠ 0) :
    (∃ k, (t.clear j).key k ≠ 0 ∧ (t.clear j).receipts k = r') ↔ r' ≠ t.receipts j ∧ Holds t r' := by
  rw [holds_iff ordered]
  constructor
  · rintro ⟨k, heldK, rfl⟩
    rw [ReceiptTable.key_clear] at heldK
    split at heldK
    · exact absurd rfl heldK
    · rename_i other
      rw [ReceiptTable.receipts_clear_ne other]
      refine ⟨fun same => other ?_, k, heldK, rfl⟩
      exact ordered.injective heldK (congrArg ReceiptRecord.receipt same)
  · rintro ⟨different, k, heldK, rfl⟩
    have other : k ≠ j := by
      rintro rfl
      exact different rfl
    refine ⟨k, ?_, ReceiptTable.receipts_clear_ne other⟩
    rw [ReceiptTable.key_clear, if_neg other]
    exact heldK

theorem trim_reset (empty : (t.trim j).lo = (t.trim j).hi) : (t.trim j).hi = 0 := by
  have ends : ∃ t' : ReceiptTable, t.trim j = if t'.lo = t'.hi then { t' with lo := 0, hi := 0 } else t' := ⟨_, rfl⟩
  obtain ⟨t', trimmed⟩ := ends
  rw [trimmed] at empty ⊢
  split at empty
  · rename_i same
    rw [if_pos same]
  · contradiction

/-- The record in a slot is taken out, and the table may have changed its ends. -/
theorem Intact.remove {after : ReceiptTable} (intact : Intact l) (held : l.table.key j ≠ 0)
    (receipts : after.receipts = (l.table.clear j).receipts) (ordered : after.Ordered)
    (reset : after.lo = after.hi → after.hi = 0) : Intact { l with
      table := after, looked := none, live := l.live.erase (l.table.receipts j) } where
  ordered := ordered
  reset := reset
  holds r := by
    have left := @holds_clear l.table j r intact.ordered held
    rw [holds_iff ordered, intact.once.mem_erase_iff, intact.holds, ← left]
    unfold ReceiptTable.key
    rw [receipts]
  once := intact.once.erase _
  numbers r live := intact.numbers r (List.mem_of_mem_erase live)
  looked _ _ looked := by cases looked

theorem Intact.step (intact : Intact l) (allowed : Allowed (fun l n => New l n ∧ Roomy l.table n) l op)
    (stepped : ledgerStep op l = .ok l') : Intact l' := by
  cases op with
  | add r =>
    obtain ⟨number, new, roomy⟩ := allowed
    obtain ⟨slot, placed⟩ := placed_of_roomy intact.ordered number roomy
    cases stepped
    exact intact.add number new placed
  | look receipt =>
    obtain ⟨number, _⟩ := allowed
    simp only [ledgerStep] at stepped
    split at stepped
    · cases stepped
      exact intact
    · split at stepped
      · rename_i found
        cases stepped
        refine { intact with looked := fun j r looked => ?_ }
        cases looked
        exact ⟨found ▸ number, rfl⟩
      · cases stepped
        exact intact
  | finish =>
    simp only [ledgerStep] at stepped
    split at stepped
    · cases stepped
      exact intact
    · rename_i j r looked
      obtain ⟨held, rfl⟩ := intact.looked j r looked
      have inside := intact.ordered.inside j held
      have empty : (l.table.clear j).key j = 0 := by rw [ReceiptTable.key_clear, if_pos rfl]
      cases stepped
      exact intact.remove held ReceiptTable.receipts_trim
        (ReceiptTable.ordered_trim (ReceiptTable.ordered_clear intact.ordered) empty inside.1 inside.2) trim_reset
  | expire j =>
    obtain ⟨idle, held⟩ := allowed
    cases stepped
    have cleared := ReceiptTable.ordered_clear (j := j) intact.ordered
    have removed := @Intact.remove _ _ { l.table.clear j with num := l.table.num - 1 } intact held rfl
      ⟨cleared.inside, cleared.increasing, cleared.ends⟩ intact.reset
    rwa [← idle] at removed

theorem intact_run (run : Run ledgerStep (Allowed fun l n => New l n ∧ Roomy l.table n) Opened ops l) :
    Intact l :=
  run.invariant (fun _ => .opened) fun _ _ _ intact allowed stepped => intact.step allowed stepped

/-- Numbers that grow are new, and there is room for them at the end. -/
theorem Intact.allowed (intact : Intact l) (allowed : Allowed Above l op) :
    Allowed (fun l n => New l n ∧ Roomy l.table n) l op := by
  cases op with
  | add r =>
    obtain ⟨number, above⟩ := allowed
    exact ⟨number, fun old => Nat.lt_irrefl _ (above _ old), intact.atEnd above⟩
  | look receipt => exact allowed
  | finish => exact allowed
  | expire j => exact allowed

theorem roomy_of_increasing (run : Run ledgerStep (Allowed Above) Opened ops l) :
    Run ledgerStep (Allowed fun l n => New l n ∧ Roomy l.table n) Opened ops l := by
  induction run with
  | nil opened => exact .nil opened
  | cons _ allowed stepped ih => exact .cons ih ((intact_run ih).allowed allowed) stepped

/-- As long as there is a place for every number, the table holds what is live, in
order, and a confirmation takes out the record it looked up; and the next number
is put there rightly exactly if there is a place for it. -/
theorem kept_iff_roomy (run : Run ledgerStep (Allowed fun l n => New l n ∧ Roomy l.table n) Opened ops l) :
    Sorted l.table.key l.table.lo l.table.hi ∧ (∀ r, r ∈ l.live ↔ Holds l.table r) ∧
      (∀ j r, l.looked = some (j, r) → ∀ r', Holds ((l.table.clear j).trim j) r' ↔ r' ≠ r ∧ Holds l.table r') ∧
      ∀ r, r.receipt ≠ 0 → New l r.receipt → (KeepsTable l.table r ↔ Roomy l.table r.receipt) := by
  have intact := intact_run run
  refine ⟨intact.ordered.sorted, intact.holds, fun j r looked r' => ?_, fun r number new => ?_⟩
  · have stepped : ledgerStep .finish l = .ok { l with
        table := (l.table.clear j).trim j, looked := none, live := l.live.erase r } := by
      rw [ledgerStep, looked]
    have finished := @Intact.step _ _ .finish intact trivial stepped
    rw [← finished.holds, intact.once.mem_erase_iff, intact.holds]
  · exact keepsTable_iff intact.ordered intact.reset number (intact.absent number new)

/-- A number whose two records before it have left is put between the two that stay. -/
theorem kept_iff_roomy_hole : ∃ ops l,
    Run ledgerStep (Allowed fun l n => New l n ∧ Roomy l.table n) Opened ops l ∧
      l.live.map ReceiptRecord.receipt = [9, 1] ∧ KeepsTable l.table { receipt := 5 } := by
  obtain ⟨l, run, checked⟩ := @exists_run _ _ _ Opened ledgerStep (Allowed Above) _
    [.add { receipt := 1 }, .add { receipt := 2 }, .add { receipt := 3 }, .add { receipt := 9 }, .expire 1, .expire 2]
    (fun l => decide (l.live.map ReceiptRecord.receipt = [9, 1] ∧ l.added = [9, 3, 2, 1] ∧ l.table.lo = 0 ∧
      l.table.hi = 4 ∧ l.table.key 0 = 1 ∧ l.table.key 1 = 0 ∧ l.table.key 2 = 0 ∧ l.table.key 3 = 9)) {} rfl
    (by decide +kernel)
  obtain ⟨live, added, lo, hi, first, second, third, fourth⟩ := of_decide_eq_true checked
  have roomyRun := roomy_of_increasing run
  have ordered := (intact_run roomyRun).ordered
  have new : New l 5 := by
    unfold New
    rw [added]
    decide
  have held : ∀ j, 0 < j → l.table.key j ≠ 0 → j = 3 := by
    intro j after heldJ
    have inside := ordered.inside j heldJ
    by_contra other
    have holes : j = 1 ∨ j = 2 := by omega
    rcases holes with rfl | rfl
    · exact heldJ second
    · exact heldJ third
  have roomy : Roomy l.table 5 := by
    apply Roomy.between (a := 0)
    · rw [hi, fourth]
      decide
    · rw [first]
      decide
    · rw [first]
      decide
    · intro j after heldJ
      rw [held j after heldJ, fourth]
      decide
    · rw [lo, hi]
      exact not_hidden_first (by decide)
    · rintro ⟨i1, _, same⟩
      exact absurd same (Nat.succ_ne_zero i1)
    · intro _ j after heldJ
      rw [held j after heldJ]
      decide
  exact ⟨_, l, roomyRun, live, ((kept_iff_roomy roomyRun).2.2.2 { receipt := 5 } (by decide) new).mpr roomy⟩

/-- The ids 1, 2, 4 and 6 wait when 4 is confirmed and what goes out then gets the
id 3. The records of 4 and 6 move up behind the end, and 3 takes the slot that is
cleared next. -/
theorem moved_behind_end : ∃ ops l, Run ledgerStep (Allowed New) Opened ops l ∧
    (∃ r ∈ l.live, ¬ Holds l.table r) ∧ ∃ j r, l.looked = some (j, r) ∧ l.table.receipts j ≠ r := by
  obtain ⟨l, run, checked⟩ := @exists_run _ _ _ Opened ledgerStep (Allowed New) _
    [.add { receipt := 1 }, .add { receipt := 2 }, .add { receipt := 4 }, .add { receipt := 6 }, .look 4, .add { receipt := 3 }]
    (fun l => decide (({ receipt := 6 } : ReceiptRecord) ∈ l.live ∧
      (∀ k < l.table.hi, l.table.receipts k ≠ { receipt := 6 }) ∧
      l.looked = some (2, { receipt := 4 }) ∧ l.table.key 2 = 3)) {} rfl (by decide +kernel)
  obtain ⟨live, gone, looked, taken⟩ := of_decide_eq_true checked
  refine ⟨_, l, run, ⟨_, live, ?_⟩, 2, _, looked, ?_⟩
  · rintro ⟨_, k, _, before, same⟩
    exact gone k before same
  · intro same
    have other : l.table.key 2 = 4 := congrArg ReceiptRecord.receipt same
    omega

/-! ## Lookups -/

/-- The lookup of a number gives a slot that holds it exactly if a record with it
is live, and the record there is live. -/
structure FindsLive (l : Ledger) (n : Nat) : Prop where
  iff_live : (∃ j, l.table.findReceipt n = some j ∧ l.table.key j = n) ↔ ∃ r ∈ l.live, r.receipt = n
  same : ∀ j, l.table.findReceipt n = some j → l.table.key j = n → l.table.receipts j ∈ l.live

/-- No slot of the number is hidden from its lookup; that of zero, which no record
has, ends at the low end. -/
structure Findable (t : ReceiptTable) (n : Nat) : Prop where
  visible : n ≠ 0 → ∀ j, t.key j = n → ¬ Hidden t.key t.lo t.hi j
  zero : n = 0 → t.lo = t.hi ∨ t.key t.lo ≠ 0

theorem findReceipt_zero (ordered : t.Ordered) (some : t.lo ≠ t.hi) : t.findReceipt 0 = .some t.lo := by
  have ends := ordered.ends
  have found := @search_from _ _ _ t.key t.hi (t.hi - t.lo) t.lo t.hi 0 (by omega) (Nat.le_refl _)
    (fun k _ _ held => Nat.pos_of_ne_zero held) (Nat.le_refl _)
  rw [ReceiptTable.findReceipt, if_neg some, found, if_neg (Nat.not_lt_zero _)]

/-- In a table that holds what is live, the lookup of a number is right exactly if no
slot of it is hidden. -/
theorem Intact.findsLive_iff (intact : Intact l) (n : Nat) : FindsLive l n ↔ Findable l.table n := by
  have live : ∀ j, l.table.key j ≠ 0 → l.table.receipts j ∈ l.live := fun j held =>
    (intact.holds _).mpr ((holds_iff intact.ordered).mpr ⟨j, held, rfl⟩)
  by_cases number : n = 0
  · subst number
    have nothing : ¬ ∃ r ∈ l.live, r.receipt = 0 := by
      rintro ⟨r, member, zero⟩
      exact ((intact.holds r).mp member).1 zero
    constructor
    · intro finds
      refine ⟨fun number => absurd rfl number, fun _ => ?_⟩
      by_cases empty : l.table.lo = l.table.hi
      · exact .inl empty
      · refine .inr fun hole => nothing ?_
        exact finds.iff_live.mp ⟨_, findReceipt_zero intact.ordered empty, hole⟩
    · intro findable
      have missed : ∀ j, l.table.findReceipt 0 = some j → l.table.key j ≠ 0 := by
        intro j found
        rcases findable.zero rfl with empty | held
        · rw [ReceiptTable.findReceipt, if_pos empty] at found
          cases found
        · by_cases empty : l.table.lo = l.table.hi
          · rw [ReceiptTable.findReceipt, if_pos empty] at found
            cases found
          · rw [findReceipt_zero intact.ordered empty] at found
            cases found
            exact held
      constructor
      · constructor
        · rintro ⟨j, found, hole⟩
          exact absurd hole (missed j found)
        · intro some
          exact absurd some nothing
      · intro j found hole
        exact absurd hole (missed j found)
  · constructor
    · intro finds
      refine ⟨fun _ j same => ?_, fun zero => absurd zero number⟩
      subst same
      obtain ⟨k, found, same⟩ := finds.iff_live.mpr ⟨_, live j number, rfl⟩
      have here := intact.ordered.injective number same.symm
      subst here
      exact (ReceiptTable.findReceipt_iff intact.ordered number).mp found
    · intro findable
      constructor
      · constructor
        · rintro ⟨j, found, same⟩
          exact ⟨_, live j (same ▸ number), same⟩
        · rintro ⟨r, member, same⟩
          obtain ⟨_, j, _, _, rfl⟩ := (intact.holds r).mp member
          have visible := findable.visible number j same
          subst same
          exact ⟨j, (ReceiptTable.findReceipt_iff intact.ordered number).mpr visible, rfl⟩
      · intro j _ same
        exact live j (same ▸ number)

/-- Under numbers that grow, every lookup is right exactly if no slot of its number is hidden. -/
theorem finds_live_iff (run : Run ledgerStep (Allowed Above) Opened ops l) (n : Nat) :
    FindsLive l n ↔ Findable l.table n := by
  have intact := intact_run (roomy_of_increasing run)
  exact intact.findsLive_iff n

/-- Of three records the middle one is confirmed; the other two are found. -/
theorem finds_live_iff_three : ∃ ops l, Run ledgerStep (Allowed Above) Opened ops l ∧
    l.live.map ReceiptRecord.receipt = [7, 5] ∧ (FindsLive l 5 ↔ Findable l.table 5) := by
  obtain ⟨l, run, checked⟩ := @exists_run _ _ _ Opened ledgerStep (Allowed Above) _
    [.add { receipt := 5 }, .add { receipt := 6 }, .add { receipt := 7 }, .look 6, .finish]
    (fun l => decide (l.live.map ReceiptRecord.receipt = [7, 5])) {} rfl (by decide +kernel)
  exact ⟨_, l, run, of_decide_eq_true checked, finds_live_iff run 5⟩

/-- The ids 1 to 4 wait and 3 is confirmed. Its hole is the middle of the table, and
4 is not found behind it. -/
theorem fourth_not_found : ∃ ops l, Run ledgerStep (Allowed Above) Opened ops l ∧ ¬ FindsLive l 4 := by
  obtain ⟨l, run, checked⟩ := @exists_run _ _ _ Opened ledgerStep (Allowed Above) _
    [.add { receipt := 1 }, .add { receipt := 2 }, .add { receipt := 3 }, .add { receipt := 4 }, .look 3, .finish]
    (fun l => decide (({ receipt := 4 } : ReceiptRecord) ∈ l.live ∧ l.table.findReceipt 4 = some 1 ∧ l.table.key 1 = 2))
    {} rfl (by decide +kernel)
  obtain ⟨live, found, hole⟩ := of_decide_eq_true checked
  refine ⟨_, l, run, fun finds => ?_⟩
  obtain ⟨j, here, same⟩ := finds.iff_live.mpr ⟨_, live, rfl⟩
  rw [found] at here
  cases here
  omega

/-! ## The sender's table -/

/-- The sender's table and the slot whose receipt it processes are the ledger's. -/
structure Follows (w : World) (l : Ledger) (v : View) : Prop where
  table : l.table = v.s.receipts
  looked : l.looked.map Prod.fst = v.taken
  answered : ∀ n ∈ l.added, n ≠ 0 ∧ ∃ i < v.s.base.length, w.answer i = n

/-- Whatever ids have been given, the base library's next one is admitted. -/
def Admits (w : World) (admits : Ledger → Nat → Prop) : Prop :=
  ∀ l k, w.answer k ≠ 0 → (∀ n ∈ l.added, n ≠ 0 ∧ ∃ i < k, w.answer i = n) → admits l (w.answer k)

/-- Some run of a ledger comes to the view's table. -/
def Booked (w : World) (admits : Ledger → Nat → Prop) (v : View) : Prop :=
  ∃ ops l, Run ledgerStep (Allowed admits) Opened ops l ∧ Follows w l v

variable {w : World} {admits : Ledger → Nat → Prop} {v v' : View} {label : Label} {s s' : State}
  {taken : Option Nat} {forming forming' : Option (Nat × List UInt8)}

theorem Booked.frame (booked : Booked w admits ⟨s, taken, forming⟩) (receipts : s'.receipts = s.receipts)
    (base : s.base.length ≤ s'.base.length) : Booked w admits ⟨s', taken, forming'⟩ := by
  obtain ⟨ops, l, run, follows⟩ := booked
  refine ⟨ops, l, run, follows.table.trans receipts.symm, follows.looked, fun n member => ?_⟩
  obtain ⟨number, i, before, answered⟩ := follows.answered n member
  exact ⟨number, i, Nat.lt_of_lt_of_le before base, answered⟩

theorem Booked.sent {msg i : Nat} {m m' : MsgOutbound} (admitted : Admits w admits)
    (booked : Booked w admits ⟨s, taken, forming⟩) (accepted : w.answer s.base.length ≠ 0) :
    Booked w admits ⟨sentState w s msg m i m', taken, forming'⟩ := by
  obtain ⟨ops, l, run, follows⟩ := booked
  have longer : (s.base ++ [partCall msg m i]).length = s.base.length + 1 := List.length_append
  have allowed : Allowed admits l (.add ⟨w.answer s.base.length, msg, i + 1, w.clock s.ticks⟩) :=
    ⟨accepted, admitted l _ accepted follows.answered⟩
  refine ⟨_, _, run.cons allowed rfl, congrArg (ReceiptTable.addReceipt · _) follows.table, follows.looked,
    fun n member => ?_⟩
  change n ≠ 0 ∧ ∃ k < (s.base ++ [partCall msg m i]).length, w.answer k = n
  rw [longer]
  rcases List.mem_cons.mp member with rfl | earlier
  · exact ⟨accepted, s.base.length, Nat.lt_succ_self _, rfl⟩
  · obtain ⟨number, i, before, answered⟩ := follows.answered n earlier
    exact ⟨number, i, Nat.lt_succ_of_lt before, answered⟩

theorem Booked.lost {j msg : Nat} {m : MsgOutbound} (booked : Booked w admits ⟨s, none, forming⟩)
    (held : s.receipts.key j ≠ 0) : Booked w admits ⟨lostState s j msg m, none, forming⟩ := by
  obtain ⟨ops, l, run, follows⟩ := booked
  obtain ⟨table, looked, answered⟩ := follows
  have allowed : Allowed admits l (.expire j) := by
    constructor
    · exact Option.map_eq_none_iff.mp looked
    · rw [table]
      exact held
  exact ⟨_, _, run.cons allowed rfl, congrArg (fun t => { ReceiptTable.clear t j with num := t.num - 1 }) table,
    looked, answered⟩

/-- Every move is no more than one call at the table, or an expiry and a resend. -/
theorem Booked.move (admitted : Admits w admits) (booked : Booked w admits v) (move : Move w label v v') :
    Booked w admits v' := by
  have longer : ∀ (base : List BaseCall) (call : BaseCall), base.length ≤ (base ++ [call]).length := by
    intro base call
    rw [List.length_append]
    exact Nat.le_add_right _ _
  cases move with
  | idle | passed | begun | opened | dropped | completed => exact booked.frame rfl (Nat.le_refl _)
  | short | firstRefused | nextRefused | failedRefused => exact booked.frame rfl (longer _ _)
  | firstSent _ _ _ _ _ accepted | nextSent _ _ _ _ accepted | failedSent _ _ _ _ accepted =>
    exact booked.sent admitted accepted
  | @lost s now j m held =>
    have lost := @Booked.lost _ _ _ _ j (s.receipts.receipts j).msg m booked held
    exact lost.frame rfl (longer _ _)
  | @resent s now j m held _ found accepted =>
    have lost := @Booked.lost _ _ _ _ j (s.receipts.receipts j).msg m booked held
    exact lost.sent admitted accepted
  | @confirmed s friendNumber messageId j m db number found held =>
    obtain ⟨ops, l, run, table, looked, answered⟩ := booked
    have allowed : Allowed admits l (.look messageId) := ⟨number, Option.map_eq_none_iff.mp looked⟩
    have stepped : ledgerStep (.look messageId) l = .ok { l with looked := some (j, l.table.receipts j) } := by
      simp only [ledgerStep, table, found, held, ↓reduceIte]
    exact ⟨_, _, run.cons allowed stepped, table, rfl, answered⟩
  | @cleared s friendNumber messageId j =>
    obtain ⟨ops, l, run, table, first, answered⟩ := booked
    obtain ⟨⟨j, r⟩, looked, rfl⟩ := Option.map_eq_some_iff.mp first
    have stepped : ledgerStep .finish l = .ok { l with
        table := (l.table.clear j).trim j, looked := none, live := l.live.erase r } := by
      rw [ledgerStep, looked]
    have allowed : Allowed admits l .finish := trivial
    exact ⟨_, _, run.cons allowed stepped, congrArg (fun t => (ReceiptTable.clear t j).trim j) table, rfl, answered⟩

/-- The table of every sender is the table of a ledger. -/
theorem booked_of_run {start : State → Prop} {ops : List Op} (admitted : Admits w admits)
    (empty : ∀ s, start s → s.receipts = receiptsInitialize)
    (run : Run (step w) (fun _ op => Proper op) start ops s) : Booked w admits ⟨s, none, none⟩ := by
  refine run.invariant (I := fun s => Booked w admits ⟨s, none, none⟩) (fun s started => ?_)
    fun s op s' booked proper ran => ?_
  · refine ⟨[], {}, .nil rfl, (empty s started).symm, rfl, fun n member => ?_⟩
    cases member
  · exact (step_chain proper ran).invariant (fun _ move before => before.move admitted move) booked

theorem admits_above (increasing : Increasing w) : Admits w Above := by
  intro l k accepted answered n member
  obtain ⟨number, i, before, rfl⟩ := answered n member
  exact increasing i k before number accepted

end Defragmenter.ReceiptLedger
