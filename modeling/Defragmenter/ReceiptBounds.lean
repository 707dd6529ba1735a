import Defragmenter.ReceiptLedger

/-! Which slots of the receipt table are read and written. The array grows when a
record is appended to a full one, and when records are moved. A lookup that ends
behind the last slot, and a record that is put there, look one slot further. -/
namespace Defragmenter.ReceiptBounds
open SparseSearch Receipts Runs Sender Moves Tracking ReceiptLedger

/-- The slots `findReceipt` reads. -/
def findReads (t : ReceiptTable) (receipt : Nat) : List Nat :=
  if t.lo = t.hi then [] else searchReads t.key receipt (t.hi - t.lo) t.lo t.hi

/-- The slots read by `while (lo < hi && !receipts[hi-1].receipt)`. -/
def lastHeldReads (t : ReceiptTable) : Nat → Nat → List Nat
  | 0, _ => []
  | room + 1, hi => (hi - 1) :: if t.key (hi - 1) = 0 then lastHeldReads t room (hi - 1) else []

/-- The end of `tryProcessReceipt`: the slot is cleared, then the ends move in. -/
def clearAccesses (t : ReceiptTable) (recIdx : Nat) : List Nat :=
  recIdx ::
    if recIdx = t.lo then nextHeldReads (t.clear recIdx).key (t.hi - (t.lo + 1)) (t.lo + 1)
    else if recIdx + 1 = t.hi then lastHeldReads (t.clear recIdx) (t.hi - 1 - t.lo) (t.hi - 1)
    else []

/-- The slot behind the place at which the lookup of a number ends. -/
def behindLookup (t : ReceiptTable) (receipt : Nat) : Nat :=
  match t.findReceipt receipt with
  | none => 0
  | some j => j + 1

/-- What `addReceipt` reads and writes, each slot with the allocation at that time. -/
def addAccesses (t : ReceiptTable) (receipt : Nat) : List (Nat × Nat) :=
  (if t.hi = 0 then [] else [(t.hi - 1, t.alloc)]) ++
    if t.hi = 0 ∨ t.key (t.hi - 1) < receipt then
      [(t.hi, if t.hi = t.alloc then 2 * t.alloc else t.alloc)]
    else
      let recIdx := behindLookup t receipt
      (findReads t receipt ++ [recIdx]).map (·, t.alloc) ++
        if t.key recIdx ≠ 0 then
          let alloc := ReceiptTable.growTo (t.hi + 16) (t.hi + 16) t.alloc
          -- what `memmove` reads and writes, and what `memset` clears
          (List.range' recIdx (t.hi - recIdx) ++ List.range' (recIdx + 16) (t.hi - recIdx) ++
            List.range' recIdx 16 ++ [recIdx]).map (·, alloc)
        else [(recIdx, t.alloc)]

/-- The slots of a call, each with the allocation at that time. The loop of
`resendExpiredReceipts` is none of these functions. -/
def accesses (l : Ledger) : LedgerOp → List (Nat × Nat)
  | .add r => addAccesses l.table r.receipt
  | .look receipt => (findReads l.table receipt ++ (l.table.findReceipt receipt).toList).map (·, l.table.alloc)
  | .finish =>
    match l.looked with
    | none => []
    | some (j, _) => (clearAccesses l.table j).map (·, l.table.alloc)
  | .expire _ => []

def InBounds (l : Ledger) (op : LedgerOp) : Prop := ∀ a ∈ accesses l op, a.1 < a.2

/-- The number is put behind the slot before the last, or there is only one slot. -/
def PutLast (t : ReceiptTable) (n : Nat) : Prop :=
  t.lo + 1 = t.hi ∨ t.lo + 2 ≤ t.hi ∧ Rises t.key n t.hi t.lo (t.hi - 2) ∧ t.key (t.hi - 2) < n

/-- The table is not full, or the call does not come to the slot behind its end. -/
def Spare (l : Ledger) : LedgerOp → Prop
  | .add r => l.table.hi = l.table.alloc → l.table.key (l.table.hi - 1) < r.receipt ∨ ¬ PutLast l.table r.receipt
  | .look receipt => l.table.hi = l.table.alloc → l.table.lo + 1 = l.table.hi → receipt ≤ l.table.key l.table.lo
  | .finish => True
  | .expire _ => True

/-- The ends are in order and inside the array, and so is the slot that was looked up. -/
structure Bounded (l : Ledger) : Prop where
  ends : l.table.lo ≤ l.table.hi
  fits : l.table.hi ≤ l.table.alloc
  allocated : 0 < l.table.alloc
  reset : l.table.lo = l.table.hi → l.table.hi = 0
  looked : ∀ j r, l.looked = some (j, r) → l.table.lo ≤ j ∧ j < l.table.alloc ∧ l.table.lo < l.table.hi

variable {t : ReceiptTable} {r : ReceiptRecord} {l l' : Ledger} {op : LedgerOp} {ops : List LedgerOp}
  {admits : Ledger → Nat → Prop} {j n : Nat}

/-! ## The ends stay inside -/

/-- Every round makes the array longer. -/
theorem le_growTo {wanted fuel alloc : Nat} (allocated : 0 < alloc) :
    alloc ≤ ReceiptTable.growTo wanted fuel alloc ∧
      (wanted ≤ alloc + fuel → wanted ≤ ReceiptTable.growTo wanted fuel alloc) := by
  induction fuel generalizing alloc with
  | zero => exact ⟨Nat.le_refl _, fun enough => enough⟩
  | succ fuel ih =>
    rw [ReceiptTable.growTo]
    split
    · obtain ⟨longer, reaches⟩ := @ih (2 * alloc) (by omega)
      exact ⟨by omega, fun enough => reaches (by omega)⟩
    · exact ⟨Nat.le_refl _, fun _ => by omega⟩

theorem addReceipt_behind (last : ¬ (t.hi = 0 ∨ t.key (t.hi - 1) < r.receipt)) :
    t.addReceipt r = if t.key (behindLookup t r.receipt) ≠ 0 then
      { t with
        receipts := Function.update (ReceiptTable.moveUp t.receipts (behindLookup t r.receipt) t.hi 16)
          (behindLookup t r.receipt) r
        num := t.num + 1
        alloc := ReceiptTable.growTo (t.hi + 16) (t.hi + 16) t.alloc }
    else { t with receipts := Function.update t.receipts (behindLookup t r.receipt) r, num := t.num + 1 } := by
  rw [ReceiptTable.addReceipt, if_neg last]
  rfl

theorem addReceipt_ends (allocated : 0 < t.alloc) (fits : t.hi ≤ t.alloc) :
    (t.addReceipt r).lo = t.lo ∧ t.hi ≤ (t.addReceipt r).hi ∧ (t.addReceipt r).hi ≤ (t.addReceipt r).alloc ∧
      t.alloc ≤ (t.addReceipt r).alloc ∧ 0 < (t.addReceipt r).hi := by
  by_cases last : t.hi = 0 ∨ t.key (t.hi - 1) < r.receipt
  · rw [ReceiptTable.addReceipt, if_pos last]
    dsimp only
    split <;> omega
  · have grown := @le_growTo (t.hi + 16) (t.hi + 16) t.alloc allocated
    rw [addReceipt_behind last]
    split
    · dsimp only
      omega
    · dsimp only
      omega

theorem trim_ends (inside : t.lo < t.hi) :
    (t.trim j).lo ≤ (t.trim j).hi ∧ (t.trim j).hi ≤ t.hi ∧ (t.trim j).alloc = t.alloc := by
  have up := @le_nextHeld Nat _ _ t.key (t.lo + 1) (t.hi - (t.lo + 1))
  have down := @ReceiptTable.lastHeld_le t (t.hi - 1 - t.lo) (t.hi - 1)
  unfold ReceiptTable.trim
  dsimp only
  by_cases low : j = t.lo
  · rw [if_pos low]
    split
    · exact ⟨Nat.le_refl _, Nat.zero_le _, rfl⟩
    · exact ⟨by dsimp only; omega, Nat.le_refl _, rfl⟩
  · rw [if_neg low]
    by_cases high : j + 1 = t.hi
    · rw [if_pos high]
      split
      · exact ⟨Nat.le_refl _, Nat.zero_le _, rfl⟩
      · exact ⟨by dsimp only; omega, by dsimp only; omega, rfl⟩
    · rw [if_neg high]
      split
      · exact ⟨Nat.le_refl _, Nat.zero_le _, rfl⟩
      · exact ⟨Nat.le_of_lt inside, Nat.le_refl _, rfl⟩

theorem Bounded.opened (opened : Opened l) : Bounded l := by
  obtain rfl := opened
  refine ⟨Nat.le_refl _, Nat.zero_le _, by decide, fun _ => rfl, fun j r looked => ?_⟩
  cases looked

/-- A step keeps the ends inside the array if a record it finds is inside. -/
theorem Bounded.step (bounded : Bounded l) (stepped : ledgerStep op l = .ok l')
    (found : ∀ n j, op = .look n → l.table.findReceipt n = some j → l.table.key j = n → j < l.table.alloc) :
    Bounded l' := by
  cases op with
  | add r =>
    cases stepped
    obtain ⟨lo, hi, fits, alloc, nonempty⟩ := @addReceipt_ends l.table r bounded.allocated bounded.fits
    have reset := bounded.reset
    have ends := bounded.ends
    refine ⟨?_, fits, Nat.lt_of_lt_of_le bounded.allocated alloc, ?_, fun j r' looked => ?_⟩
    · dsimp only
      omega
    · dsimp only
      omega
    · have := bounded.looked j r' looked
      dsimp only
      omega
  | look receipt =>
    simp only [ledgerStep] at stepped
    split at stepped
    · cases stepped
      exact bounded
    · rename_i j lookup
      split at stepped
      · rename_i held
        cases stepped
        refine { bounded with looked := fun k r looked => ?_ }
        cases looked
        have inside := found receipt j rfl lookup held
        have notEmpty : l.table.lo ≠ l.table.hi := by
          intro empty
          rw [ReceiptTable.findReceipt, if_pos empty] at lookup
          cases lookup
        rw [ReceiptTable.findReceipt, if_neg notEmpty] at lookup
        have ends := bounded.ends
        have from_ := (@search_mem _ _ _ l.table.key (l.table.hi - l.table.lo) l.table.lo l.table.hi receipt ends).1
        cases lookup
        exact ⟨from_, inside, Nat.lt_of_le_of_ne ends notEmpty⟩
      · cases stepped
        exact bounded
  | finish =>
    simp only [ledgerStep] at stepped
    split at stepped
    · cases stepped
      exact bounded
    · rename_i j r looked
      obtain ⟨_, _, inside⟩ := bounded.looked j r looked
      cases stepped
      obtain ⟨ends, shorter, same⟩ := @trim_ends (l.table.clear j) j inside
      have alloc : ((l.table.clear j).trim j).alloc = l.table.alloc := same
      refine ⟨ends, ?_, ?_, trim_reset, fun k r' none => ?_⟩
      · rw [alloc]
        exact Nat.le_trans shorter bounded.fits
      · rw [alloc]
        exact bounded.allocated
      · cases none
  | expire j =>
    cases stepped
    exact ⟨bounded.ends, bounded.fits, bounded.allocated, bounded.reset, bounded.looked⟩

/-! ## When every slot is inside -/

theorem findReads_lt {k : Nat} (ends : t.lo ≤ t.hi) (member : k ∈ findReads t n) : k < t.hi := by
  unfold findReads at member
  split at member
  · cases member
  · rename_i notEmpty
    exact searchReads_lt (Nat.lt_of_le_of_ne ends notEmpty) member

theorem lastHeldReads_lt {k room hi : Nat} (enough : room ≤ hi) (member : k ∈ lastHeldReads t room hi) : k < hi := by
  induction room generalizing hi with
  | zero => cases member
  | succ room ih =>
    rw [lastHeldReads] at member
    rcases List.mem_cons.mp member with rfl | later
    · omega
    · split at later
      · have := ih (by omega) later
        omega
      · cases later

theorem clearAccesses_lt {k : Nat} (inside : t.lo < t.hi) (fits : t.hi ≤ t.alloc) (recIdx : j < t.alloc)
    (member : k ∈ clearAccesses t j) : k < t.alloc := by
  unfold clearAccesses at member
  rcases List.mem_cons.mp member with rfl | later
  · exact recIdx
  · split at later
    · have := nextHeldReads_lt later
      omega
    · split at later
      · have := lastHeldReads_lt (by omega) later
        omega
      · cases later

theorem behindLookup_eq (inside : t.lo < t.hi) :
    behindLookup t n = search t.key n (t.hi - t.lo) t.lo t.hi + 1 := by
  rw [behindLookup, ReceiptTable.findReceipt, if_neg (Nat.ne_of_lt inside)]

/-- A record that is not appended is put no further than behind the last slot. -/
theorem behindLookup_le (inside : t.lo < t.hi) (last : ¬ t.key (t.hi - 1) < n) :
    behindLookup t n ≤ t.hi ∧ (behindLookup t n = t.hi ↔ PutLast t n) := by
  rw [behindLookup_eq inside]
  by_cases wide : t.lo + 1 < t.hi
  · have before := @search_lt _ _ _ t.key (t.hi - t.lo) t.lo t.hi n wide (Nat.le_refl _)
    have ends := @search_eq_last_iff _ _ _ t.key t.hi (t.hi - t.lo) t.lo n wide (Nat.le_refl _)
    refine ⟨before, ?_⟩
    constructor
    · intro same
      exact .inr ⟨wide, ends.mp (by omega)⟩
    · rintro (single | ⟨_, rises⟩)
      · omega
      · have := ends.mpr rises
        omega
  · have single : t.lo + 1 = t.hi := by omega
    have notLess : ¬ t.key t.lo < n := by
      rwa [show t.lo = t.hi - 1 by omega]
    rw [search_final wide, if_neg notLess]
    exact ⟨inside, fun _ => .inl single, fun _ => single⟩

theorem look_inBounds_iff (bounded : Bounded l) (n : Nat) : InBounds l (.look n) ↔ Spare l (.look n) := by
  have ends := bounded.ends
  have fits := bounded.fits
  by_cases empty : l.table.lo = l.table.hi
  · have nothing : accesses l (.look n) = [] := by
      simp only [accesses, findReads, ReceiptTable.findReceipt, empty, ↓reduceIte, Option.toList_none, List.append_nil, List.map_nil]
    constructor
    · intro _ _ single
      omega
    · intro _ a member
      rw [nothing] at member
      cases member
  · have inside : l.table.lo < l.table.hi := Nat.lt_of_le_of_ne ends empty
    have found : l.table.findReceipt n = some (search l.table.key n (l.table.hi - l.table.lo) l.table.lo l.table.hi) := by
      rw [ReceiptTable.findReceipt, if_neg empty]
    have upper := (@search_mem _ _ _ l.table.key (l.table.hi - l.table.lo) l.table.lo l.table.hi n ends).2
    have beyond := @search_eq_hi_iff _ _ _ l.table.key l.table.lo l.table.hi n inside
    constructor
    · intro inBounds full single
      have last := inBounds (search l.table.key n (l.table.hi - l.table.lo) l.table.lo l.table.hi, l.table.alloc)
        (by rw [accesses, found]; simp)
      refine Nat.le_of_not_lt fun less => ?_
      rw [beyond.mpr ⟨single, less⟩] at last
      omega
    · intro spare a member
      rw [accesses, found] at member
      obtain ⟨k, slot, rfl⟩ := List.mem_map.mp member
      rcases List.mem_append.mp slot with read | last
      · exact Nat.lt_of_lt_of_le (findReads_lt ends read) fits
      · obtain rfl := List.mem_singleton.mp last
        refine Nat.lt_of_le_of_ne (Nat.le_trans upper fits) fun same => ?_
        have full : l.table.hi = l.table.alloc := by omega
        obtain ⟨single, less⟩ := beyond.mp (by omega)
        have := spare full single
        omega

theorem add_inBounds_iff (bounded : Bounded l) (r : ReceiptRecord) : InBounds l (.add r) ↔ Spare l (.add r) := by
  have ends := bounded.ends
  have fits := bounded.fits
  have allocated := bounded.allocated
  have reset := bounded.reset
  by_cases last : l.table.hi = 0 ∨ l.table.key (l.table.hi - 1) < r.receipt
  · constructor
    · intro _ full
      exact .inl (last.resolve_left (by omega))
    · intro _ a member
      simp only [accesses, addAccesses, if_pos last] at member
      rcases List.mem_append.mp member with read | written
      · split at read
        · cases read
        · obtain rfl := List.mem_singleton.mp read
          dsimp only
          omega
      · obtain rfl := List.mem_singleton.mp written
        dsimp only
        split <;> omega
  · have inside : l.table.lo < l.table.hi := by omega
    have notLess : ¬ l.table.key (l.table.hi - 1) < r.receipt := fun less => last (.inr less)
    obtain ⟨upper, putLast⟩ := behindLookup_le inside notLess
    have grown := @le_growTo (l.table.hi + 16) (l.table.hi + 16) l.table.alloc allocated
    have spare : Spare l (.add r) ↔ behindLookup l.table r.receipt < l.table.alloc := by
      constructor
      · intro spare
        refine Nat.lt_of_le_of_ne (Nat.le_trans upper fits) fun same => ?_
        exact (spare (by omega)).elim notLess fun not => not (putLast.mp (by omega))
      · intro before full
        refine .inr fun put => ?_
        have := putLast.mpr put
        omega
    rw [spare]
    constructor
    · intro inBounds
      refine inBounds (behindLookup l.table r.receipt, l.table.alloc) ?_
      simp only [accesses, addAccesses, if_neg last]
      apply List.mem_append_right
      apply List.mem_append_left
      exact List.mem_map_of_mem (List.mem_append_right _ (List.mem_singleton_self _))
    · intro before a member
      simp only [accesses, addAccesses, if_neg last] at member
      rcases List.mem_append.mp member with read | member
      · split at read
        · cases read
        · obtain rfl := List.mem_singleton.mp read
          dsimp only
          omega
      rcases List.mem_append.mp member with looked | member
      · obtain ⟨k, slot, rfl⟩ := List.mem_map.mp looked
        rcases List.mem_append.mp slot with read | behind
        · exact Nat.lt_of_lt_of_le (findReads_lt ends read) fits
        · obtain rfl := List.mem_singleton.mp behind
          exact before
      split at member
      · obtain ⟨k, moved, rfl⟩ := List.mem_map.mp member
        dsimp only
        simp only [List.mem_append, List.mem_range'_1, List.mem_singleton] at moved
        omega
      · obtain rfl := List.mem_singleton.mp member
        exact before

/-- In a bounded ledger a call stays inside the array exactly if there is a slot to spare. -/
theorem Bounded.inBounds_iff (bounded : Bounded l) : ∀ op, InBounds l op ↔ Spare l op := by
  intro op
  cases op with
  | add r => exact add_inBounds_iff bounded r
  | look n => exact look_inBounds_iff bounded n
  | finish =>
    refine ⟨fun _ => trivial, fun _ a member => ?_⟩
    simp only [accesses] at member
    split at member
    · cases member
    · rename_i j r looked
      obtain ⟨k, slot, rfl⟩ := List.mem_map.mp member
      obtain ⟨_, recIdx, inside⟩ := bounded.looked j r looked
      exact clearAccesses_lt inside bounded.fits recIdx slot
  | expire j =>
    refine ⟨fun _ => trivial, fun _ a member => ?_⟩
    cases member

/-! ## Runs -/

theorem found_lt (inBounds : InBounds l (.look n)) (found : l.table.findReceipt n = some j) : j < l.table.alloc := by
  refine inBounds (j, l.table.alloc) ?_
  rw [accesses, found]
  exact List.mem_map_of_mem (List.mem_append_right _ (List.mem_singleton_self j))

/-- While every call has a slot to spare, the ends stay inside the array. -/
theorem bounded_of_run (run : Run ledgerStep (fun l op => Allowed (fun _ _ => True) l op ∧ Spare l op) Opened ops l) :
    Bounded l := by
  refine run.invariant (fun _ => .opened) fun l op l' bounded guarded stepped => bounded.step stepped ?_
  rintro n j rfl found _
  exact found_lt ((bounded.inBounds_iff _).mpr guarded.2) found

/-- And each call stays inside exactly if it has one too. -/
theorem in_bounds_iff_spare
    (run : Run ledgerStep (fun l op => Allowed (fun _ _ => True) l op ∧ Spare l op) Opened ops l) (op : LedgerOp) :
    InBounds l op ↔ Spare l op := by
  have bounded := bounded_of_run run
  exact bounded.inBounds_iff op

theorem spare_of_room (room : l.table.hi < l.table.alloc) : Spare l op := by
  have notFull : l.table.hi ≠ l.table.alloc := Nat.ne_of_lt room
  cases op with
  | add r => exact fun full => absurd full notFull
  | look receipt => exact fun full => absurd full notFull
  | finish => trivial
  | expire j => trivial

theorem in_bounds_iff_spare_two : ∃ ops l,
    Run ledgerStep (fun l op => Allowed (fun _ _ => True) l op ∧ Spare l op) Opened ops l ∧
      l.live.map ReceiptRecord.receipt = [8, 5] ∧ InBounds l (.add { receipt := 6 }) := by
  obtain ⟨l, run, checked⟩ := @exists_run _ _ _ Opened ledgerStep
    (fun l op => Allowed (fun _ _ => True) l op ∧ l.table.hi < l.table.alloc) _
    [.add { receipt := 5 }, .add { receipt := 7 }, .add { receipt := 8 }, .look 7, .finish]
    (fun l => decide (l.live.map ReceiptRecord.receipt = [8, 5] ∧ l.table.hi < l.table.alloc)) {} rfl (by decide +kernel)
  obtain ⟨live, room⟩ := of_decide_eq_true checked
  have spared : Run ledgerStep (fun l op => Allowed (fun _ _ => True) l op ∧ Spare l op) Opened _ l :=
    run.weaken fun _ _ guarded => ⟨guarded.1, spare_of_room guarded.2⟩
  exact ⟨_, l, spared, live, (in_bounds_iff_spare spared (.add { receipt := 6 })).mpr (spare_of_room room)⟩

/-- Under numbers that grow, what is found is between the ends. -/
theorem bounded_of_increasing (run : Run ledgerStep (Allowed Above) Opened ops l) : Bounded l := by
  induction run with
  | nil opened => exact .opened opened
  | @cons ops l l' op run allowed stepped ih =>
    have intact := intact_run (roomy_of_increasing run)
    refine ih.step stepped ?_
    rintro n j rfl found rfl
    exact Nat.lt_of_lt_of_le (intact.ordered.inside j allowed.1).2 ih.fits

/-- The first 32 ids fill the table, and the receipts of all but the last come in.
The lookup of the next number, one of a message that was passed on, reads slot 32. -/
theorem full_table_overread : ∃ ops l, Run ledgerStep (Allowed Above) Opened ops l ∧ ¬ InBounds l (.look 33) := by
  obtain ⟨l, run, checked⟩ := @exists_run _ _ _ Opened ledgerStep (Allowed Above) _
    ((List.range 32).map (fun i => .add { receipt := i + 1 }) ++ (List.range 31).flatMap fun i => [.look (i + 1), .finish])
    (fun l => decide (l.table.lo = 31 ∧ l.table.hi = 32 ∧ l.table.alloc = 32 ∧ l.table.key 31 = 32)) {} rfl
    (by decide +kernel)
  obtain ⟨lo, hi, alloc, key⟩ := of_decide_eq_true checked
  refine ⟨_, l, run, fun inBounds => ?_⟩
  have spare := ((bounded_of_increasing run).inBounds_iff _).mp inBounds (hi.trans alloc.symm) (by rw [lo, hi])
  rw [lo, key] at spare
  omega

end Defragmenter.ReceiptBounds
