import Defragmenter.OutboundList
import Mathlib.Data.Nat.ModEq
import Mathlib.Data.Finset.Card

/-! The numbers handed to the client. A candidate goes round the range, and the
whole scan of the pending messages starts anew after each collision; among as
many candidates as there are pending messages, and one more, one is free. -/
namespace Defragmenter.ReceiptNumbers
open Rings Sender Split OutboundList

/-- How a scan of the pending messages ends before it has come round. -/
inductive Scan where
  | changed
  | diverges

/-- The inner loop of `generateReceiptNo`, left as soon as a message has the number. -/
def scan (receiptOf : Nat → Nat) (links : Links Nat) (first rounds lastReceipt : Nat) : Except Scan Unit :=
  each links first (fun _ m => if receiptOf m = lastReceipt then .error .changed else .ok ())
    .diverges rounds first ()

/-- Its outer loop. -/
def scanAll (params : Params) (receiptOf : Nat → Nat) (links : Links Nat) (first rounds : Nat) :
    Nat → Nat → Except Fault Nat
  | 0, _ => .error .diverges
  | outer + 1, lastReceipt =>
    match scan receiptOf links first rounds lastReceipt with
    | .ok _ => .ok lastReceipt
    | .error .changed =>
      scanAll params receiptOf links first rounds outer (nextReceiptNo params lastReceipt)
    | .error .diverges => .error .diverges

/-- `generateReceiptNo` along the pointers, with so many rounds for each of its loops. -/
def generateReceiptNo (params : Params) (receiptOf : Nat → Nat) (p : Pointers)
    (rounds lastReceipt : Nat) : Except Fault Nat :=
  let lastReceipt := nextReceiptNo params lastReceipt
  match p.msgsOutbound with
  | none => .ok lastReceipt
  | some first => scanAll params receiptOf p.links first rounds rounds lastReceipt

/-- A range of numbers that leaves room for one more than its end in 32 bits. -/
structure Ranged (params : Params) : Prop where
  positive : 1 ≤ params.receiptRangeLo
  ordered : params.receiptRangeLo ≤ params.receiptRangeHi
  small : params.receiptRangeHi < 2 ^ 32 - 1

def InRange (params : Params) (number : Nat) : Prop :=
  params.receiptRangeLo ≤ number ∧ number ≤ params.receiptRangeHi

/-- How many numbers there are. -/
def numbers (params : Params) : Nat := params.receiptRangeHi - params.receiptRangeLo + 1

variable {params : Params} {number k : Nat} {pending nodes : List Nat} {p : Pointers}
  {receiptOf : Nat → Nat}

/-! ## The candidates -/

theorem nextReceiptNo_offset (ranged : Ranged params) (inside : k < numbers params) :
    nextReceiptNo params (params.receiptRangeLo + k) =
      params.receiptRangeLo + (k + 1) % numbers params := by
  obtain ⟨positive, ordered, small⟩ := ranged
  unfold numbers at *
  have fits : (params.receiptRangeLo + k + 1) % 2 ^ 32 = params.receiptRangeLo + k + 1 :=
    Nat.mod_eq_of_lt (by omega)
  rw [nextReceiptNo, fits]
  by_cases last : k + 1 = params.receiptRangeHi - params.receiptRangeLo + 1
  · rw [if_neg (by omega), last, Nat.mod_self]
    rfl
  · rw [if_pos (by omega), Nat.mod_eq_of_lt (by omega)]
    omega

theorem candidates (ranged : Ranged params) {start : Nat} (inside : start < numbers params) (k : Nat) :
    (nextReceiptNo params)^[k] (params.receiptRangeLo + start) =
      params.receiptRangeLo + (start + k) % numbers params := by
  induction k with
  | zero => simp [Nat.mod_eq_of_lt inside]
  | succ k ih =>
    have bound : (start + k) % numbers params < numbers params := Nat.mod_lt _ (Nat.succ_pos _)
    rw [Function.iterate_succ_apply', ih, nextReceiptNo_offset ranged bound, Nat.mod_add_mod]
    rfl

/-- A round through the range meets no number twice. -/
theorem candidates_injective (ranged : Ranged params) {start i j : Nat}
    (inside : start < numbers params) (left : i < numbers params) (right : j < numbers params)
    (same : (nextReceiptNo params)^[i] (params.receiptRangeLo + start) =
      (nextReceiptNo params)^[j] (params.receiptRangeLo + start)) : i = j := by
  rw [candidates ranged inside, candidates ranged inside] at same
  have congruent : start + i ≡ start + j [MOD numbers params] := Nat.add_left_cancel same
  exact (Nat.ModEq.add_left_cancel' start congruent).eq_of_lt_of_lt left right

/-- Among more different values than a list has members, one is not a member. -/
theorem exists_not_mem {α : Type*} (xs : List α) (f : Nat → α)
    (apart : ∀ i j, i ≤ xs.length → j ≤ xs.length → f i = f j → i = j) :
    ∃ k, k ≤ xs.length ∧ f k ∉ xs := by
  by_contra none
  push Not at none
  have once : ((List.range (xs.length + 1)).map f).Nodup := by
    apply List.Nodup.map_on _ List.nodup_range
    intro i left j right same
    rw [List.mem_range] at left right
    exact apart i j (by omega) (by omega) same
  have covered : (List.range (xs.length + 1)).map f ⊆ xs := by
    intro x member
    obtain ⟨k, bound, rfl⟩ := List.mem_map.mp member
    rw [List.mem_range] at bound
    exact none k (by omega)
  have fits := (once.subperm covered).length_le
  rw [List.length_map, List.length_range] at fits
  omega

theorem exists_free (ranged : Ranged params) (inside : InRange params number)
    (fewer : pending.length < numbers params) :
    ∃ k, k ≤ pending.length ∧ (nextReceiptNo params)^[k] number ∉ pending := by
  obtain ⟨low, high⟩ := inside
  obtain ⟨start, rfl⟩ := Nat.exists_eq_add_of_le low
  have begins : start < numbers params := by
    unfold numbers
    omega
  exact exists_not_mem pending _ fun i j left right =>
    candidates_injective ranged begins (by omega) (by omega)

theorem inRange_next (ranged : Ranged params) (inside : InRange params number) :
    InRange params (nextReceiptNo params number) := by
  obtain ⟨low, high⟩ := inside
  obtain ⟨start, rfl⟩ := Nat.exists_eq_add_of_le low
  have begins : start < numbers params := by
    unfold numbers
    omega
  rw [nextReceiptNo_offset ranged begins]
  have bound : (start + 1) % numbers params < numbers params := Nat.mod_lt _ (Nat.succ_pos _)
  have ordered := ranged.ordered
  unfold numbers at *
  exact ⟨Nat.le_add_right _ _, by omega⟩

/-- The search ends at the first candidate that is free. -/
theorem avoidPending_ends (ranged : Ranged params) (inside : InRange params number)
    (free : (nextReceiptNo params)^[k] number ∉ pending) :
    ∃ r, (∀ rounds, k < rounds → avoidPending params pending rounds number = .ok r) ∧
      InRange params r ∧ r ∉ pending := by
  induction k generalizing number with
  | zero =>
    refine ⟨number, fun rounds enough => ?_, inside, free⟩
    obtain ⟨rounds, rfl⟩ := Nat.exists_eq_add_of_lt enough
    rw [Nat.zero_add, avoidPending]
    exact if_neg free
  | succ k ih =>
    by_cases taken : number ∈ pending
    · obtain ⟨r, found, rest⟩ := ih (inRange_next ranged inside) free
      refine ⟨r, fun rounds enough => ?_, rest⟩
      obtain ⟨rounds, rfl⟩ := Nat.exists_eq_add_of_lt enough
      rw [avoidPending, if_pos taken]
      exact found _ (by omega)
    · refine ⟨number, fun rounds enough => ?_, inside, taken⟩
      obtain ⟨rounds, rfl⟩ := Nat.exists_eq_add_of_lt enough
      rw [avoidPending, if_neg taken]

theorem avoidPending_fresh (ranged : Ranged params) (inside : InRange params number)
    (fewer : pending.length < numbers params) :
    ∃ r, (∀ rounds, pending.length < rounds →
        avoidPending params pending rounds (nextReceiptNo params number) = .ok r) ∧
      InRange params r ∧ r ∉ pending := by
  have next := inRange_next ranged inside
  obtain ⟨k, bound, free⟩ := exists_free ranged next fewer
  obtain ⟨r, found, rest⟩ := avoidPending_ends ranged next free
  exact ⟨r, fun rounds enough => found rounds (by omega), rest⟩

/-- A send finds a number of its own as long as fewer messages are pending than
there are numbers. -/
theorem generateReceiptNo_ok {w : World} {s : State} (ranged : Ranged w.params)
    (inside : InRange w.params s.lastReceipt) (fewer : s.msgsOutbound.length < numbers w.params) :
    ∃ r, Sender.generateReceiptNo w s = .ok (r, { s with lastReceipt := r }) ∧
      InRange w.params r ∧ r ∉ s.pending := by
  have length : s.pending.length ≤ s.msgsOutbound.length := List.length_filterMap_le _ _
  obtain ⟨r, found, rest⟩ := avoidPending_fresh ranged inside (Nat.lt_of_le_of_lt length fewer)
  have ended := found (s.msgsOutbound.length + 1) (by omega)
  exact ⟨r, by simp [Sender.generateReceiptNo, ended, bind, Except.bind, pure, Except.pure], rest⟩

/-! ## Along the pointers -/

theorem foldlM_scan (nodes : List Nat) :
    nodes.foldlM (fun _ m => if receiptOf m = number then .error .changed else .ok ()) () =
      (if number ∈ nodes.map receiptOf then .error .changed else .ok () : Except Scan Unit) := by
  induction nodes with
  | nil => rfl
  | cons m nodes ih =>
    rw [List.foldlM_cons]
    by_cases same : receiptOf m = number
    · rw [if_pos same, if_pos (by simp [same])]
      rfl
    · have other : ¬ number = receiptOf m := fun eq => same eq.symm
      rw [if_neg same]
      refine ih.trans ?_
      simp [other]

/-- The two nested loops look for what `Sender` has as a search of the list of numbers. -/
theorem scanAll_eq {first rounds : Nat} {rest : List Nat} {links : Links Nat}
    (ring : Ring links (first :: rest)) (enough : rest.length < rounds) (outer number : Nat) :
    scanAll params receiptOf links first rounds outer number =
      avoidPending params ((first :: rest).map receiptOf) outer number := by
  induction outer generalizing number with
  | zero => rfl
  | succ outer ih =>
    have scanned : scan receiptOf links first rounds number =
        if number ∈ (first :: rest).map receiptOf then .error .changed else .ok () :=
      (ring.each enough ()).trans (foldlM_scan _)
    rw [scanAll, scanned, avoidPending]
    by_cases taken : number ∈ (first :: rest).map receiptOf
    · rw [if_pos taken, if_pos taken]
      exact ih _
    · rw [if_neg taken, if_neg taken]

theorem receipt_number_fresh (ranged : Ranged params) {lastReceipt : Nat}
    (inside : InRange params lastReceipt) (receiptOf : Nat → Nat) (ring : Ring p.links nodes)
    (headed : p.msgsOutbound = nodes.head?) (fewer : nodes.length < numbers params) :
    ∃ r, (∀ rounds, nodes.length < rounds →
        generateReceiptNo params receiptOf p rounds lastReceipt = .ok r) ∧
      InRange params r ∧ ∀ m ∈ nodes, receiptOf m ≠ r := by
  have length : (nodes.map receiptOf).length = nodes.length := List.length_map _
  obtain ⟨r, found, within, fresh⟩ := avoidPending_fresh ranged inside (length ▸ fewer)
  refine ⟨r, fun rounds enough => ?_, within, fun m member same =>
    fresh (List.mem_map.mpr ⟨m, member, same⟩)⟩
  have ended := found rounds (length ▸ enough)
  cases nodes with
  | nil =>
    obtain ⟨rounds, rfl⟩ := Nat.exists_eq_add_of_lt enough
    simp only [generateReceiptNo, headed, List.head?_nil]
    simpa [avoidPending] using ended
  | cons first rest =>
    simp only [generateReceiptNo, headed, List.head?_cons]
    rw [scanAll_eq ring (Nat.lt_of_succ_lt enough)]
    exact ended

/-- Two messages hold two of three numbers, and the third is found across the end of the range. -/
theorem third_of_three_numbers :
    ∃ r, generateReceiptNo ⟨100, 512, 20000, 5, 7⟩ (fun m => m + 4)
        (msgsOutboundLink (msgsOutboundLink {} 1) 2) 3 7 = .ok r ∧
      InRange ⟨100, 512, 20000, 5, 7⟩ r ∧ ∀ m ∈ [1, 2], m + 4 ≠ r := by
  have empty : Shows {} [] [] := ringed_start.shown
  have one : Shows (msgsOutboundLink {} 1) [1] [] := shows_link empty (by simp) (by simp)
  have two : Shows (msgsOutboundLink (msgsOutboundLink {} 1) 2) [1, 2] [] :=
    shows_link one (by simp) (by simp)
  obtain ⟨r, found, rest⟩ := @receipt_number_fresh ⟨100, 512, 20000, 5, 7⟩ _ _
    ⟨by decide, by decide, by decide⟩ 7 ⟨by decide, by decide⟩ (fun m => m + 4)
    two.ring two.first (by decide)
  exact ⟨r, found 3 (by decide), rest⟩

end Defragmenter.ReceiptNumbers
