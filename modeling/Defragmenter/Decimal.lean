import Mathlib.Tactic.Linarith

/-! Decimal numbers in memory: what `sprintf` prints for an unsigned number,
what `isdigit` accepts and what `strtoul` reads back. Memory is a total
function, because the C scanners may look past the end of a message. -/
namespace Defragmenter.Decimal

abbrev Memory := Nat → UInt8

/-- `isdigit` in the C locale. -/
def isdigit (b : UInt8) : Bool := 48 ≤ b.toNat && b.toNat ≤ 57

def digitByte (d : Nat) : UInt8 := UInt8.ofNat (48 + d)

/-- `sprintf` with `%u`. -/
def decimal (n : Nat) : List UInt8 :=
  if n < 10 then [digitByte n] else decimal (n / 10) ++ [digitByte (n % 10)]

/-- Memory that holds `bytes` from address zero on, and `beyond` behind them. -/
def memoryOf (bytes : List UInt8) (beyond : Memory) : Memory := fun p =>
  if inside : p < bytes.length then bytes[p] else beyond (p - bytes.length)

/-- The number a run of digits denotes, continuing from `value`. -/
def digitsValue (value : Nat) (digits : List UInt8) : Nat :=
  digits.foldl (fun value b => value * 10 + (b.toNat - 48)) value

/-- The digit loop of `strtoul`, which knows no length: it stops at the first
byte that is no digit. `fuel` bounds the bytes looked at. -/
def readDigits (mem : Memory) : Nat → Nat → Nat → Nat
  | 0, _, value => value
  | fuel + 1, p, value =>
    if isdigit (mem p) then readDigits mem fuel (p + 1) (value * 10 + ((mem p).toNat - 48)) else value

/-- Memory shows these bytes from `p` on. -/
def Shows (mem : Memory) : Nat → List UInt8 → Prop
  | _, [] => True
  | p, b :: rest => mem p = b ∧ Shows mem (p + 1) rest

theorem shows_append {mem : Memory} {p : Nat} {left right : List UInt8} :
    Shows mem p (left ++ right) ↔ Shows mem p left ∧ Shows mem (p + left.length) right := by
  induction left generalizing p with
  | nil => simp [Shows]
  | cons b left ih =>
    simp only [List.cons_append, Shows, ih, List.length_cons, and_assoc]
    rw [show p + 1 + left.length = p + (left.length + 1) by omega]

theorem shows_of_getElem {mem : Memory} {p : Nat} {bytes : List UInt8}
    (same : ∀ k (inside : k < bytes.length), mem (p + k) = bytes[k]) : Shows mem p bytes := by
  induction bytes generalizing p with
  | nil => trivial
  | cons b rest ih =>
    refine ⟨same 0 (Nat.succ_pos _), ih fun k inside => ?_⟩
    have next := same (k + 1) (by simpa using inside)
    rwa [show p + (k + 1) = p + 1 + k by omega] at next

theorem getElem_of_shows {mem : Memory} {p k : Nat} {bytes : List UInt8} (shown : Shows mem p bytes)
    (inside : k < bytes.length) : mem (p + k) = bytes[k] := by
  induction bytes generalizing p k with
  | nil => exact absurd inside (Nat.not_lt_zero k)
  | cons b rest ih =>
    cases k with
    | zero => exact shown.1
    | succ k =>
      have tail := ih (k := k) shown.2 (by simpa using inside)
      rw [List.getElem_cons_succ, ← tail, show p + (k + 1) = p + 1 + k by omega]

theorem shows_memoryOf (bytes : List UInt8) (beyond : Memory) :
    Shows (memoryOf bytes beyond) 0 bytes := by
  refine shows_of_getElem fun k inside => ?_
  simp [memoryOf, inside]

theorem digitByte_toNat {d : Nat} (small : d < 10) : (digitByte d).toNat = 48 + d := by
  simp only [digitByte, UInt8.toNat_ofNat']
  omega

theorem isdigit_digitByte {d : Nat} (small : d < 10) : isdigit (digitByte d) = true := by
  simp only [isdigit, digitByte_toNat small, Bool.and_eq_true, decide_eq_true_eq]
  omega

theorem decimal_digits (n : Nat) : ∀ b ∈ decimal n, isdigit b = true := by
  induction n using decimal.induct with
  | case1 n small =>
    intro b member
    rw [decimal, if_pos small, List.mem_singleton] at member
    exact member ▸ isdigit_digitByte small
  | case2 n large ih =>
    intro b member
    rw [decimal, if_neg large, List.mem_append, List.mem_singleton] at member
    rcases member with member | rfl
    · exact ih b member
    · exact isdigit_digitByte (by omega)

theorem decimal_ne_nil (n : Nat) : decimal n ≠ [] := by
  rw [decimal]
  split <;> simp

theorem decimal_length_pos (n : Nat) : 0 < (decimal n).length :=
  List.length_pos_iff.mpr (decimal_ne_nil n)

/-- Printing and reading back loses nothing. -/
theorem digitsValue_decimal (n : Nat) : digitsValue 0 (decimal n) = n := by
  induction n using decimal.induct with
  | case1 n small =>
    rw [decimal, if_pos small]
    simp [digitsValue, digitByte_toNat small]
  | case2 n large ih =>
    have lastDigit := digitByte_toNat (Nat.mod_lt n (show 10 > 0 by omega))
    rw [decimal, if_neg large]
    simp only [digitsValue, List.foldl_append, List.foldl_cons, List.foldl_nil] at ih ⊢
    rw [ih, lastDigit]
    omega

/-- A number has at most `k` digits exactly when it is below `10 ^ k`. -/
theorem decimal_length_le_iff (n : Nat) {k : Nat} (positive : 0 < k) :
    (decimal n).length ≤ k ↔ n < 10 ^ k := by
  induction n using decimal.induct generalizing k with
  | case1 n small =>
    rw [decimal, if_pos small]
    have power : 10 ^ 1 ≤ 10 ^ k := Nat.pow_le_pow_right (by omega) positive
    simp only [List.length_singleton]
    omega
  | case2 n large ih =>
    rw [decimal, if_neg large, List.length_append, List.length_singleton]
    obtain ⟨j, rfl⟩ := Nat.exists_eq_succ_of_ne_zero (Nat.ne_of_gt positive)
    rcases Nat.eq_zero_or_pos j with rfl | positive'
    · have := decimal_length_pos (n / 10)
      simp only [Nat.succ_eq_add_one, zero_add, pow_one]
      omega
    · have step := ih positive'
      rw [Nat.succ_eq_add_one, pow_succ]
      omega

theorem decimal_length_mono {n m : Nat} (le : n ≤ m) : (decimal n).length ≤ (decimal m).length := by
  have positive := decimal_length_pos m
  rw [decimal_length_le_iff n positive]
  exact Nat.lt_of_le_of_lt le ((decimal_length_le_iff m positive).mp (Nat.le_refl _))

/-- Reading a run of digits that a non-digit ends yields the run's value. -/
theorem readDigits_shows {mem : Memory} {p value fuel : Nat} {digits : List UInt8} {stop : UInt8}
    (shown : Shows mem p (digits ++ [stop])) (allDigits : ∀ b ∈ digits, isdigit b = true)
    (ends : isdigit stop = false) (enough : digits.length < fuel) :
    readDigits mem fuel p value = digitsValue value digits := by
  induction digits generalizing p value fuel with
  | nil =>
    obtain ⟨fuel, rfl⟩ := Nat.exists_eq_succ_of_ne_zero (show fuel ≠ 0 by omega)
    simp only [List.nil_append, Shows, and_true] at shown
    simp [readDigits, digitsValue, shown, ends]
  | cons b digits ih =>
    simp only [List.length_cons] at enough
    obtain ⟨fuel, rfl⟩ := Nat.exists_eq_succ_of_ne_zero (show fuel ≠ 0 by omega)
    obtain ⟨here, rest⟩ := shown
    have isDigit : isdigit b = true := allDigits b (by simp)
    have tail : readDigits mem fuel (p + 1) (value * 10 + (b.toNat - 48)) =
        digitsValue (value * 10 + (b.toNat - 48)) digits :=
      ih rest (fun b' member => allDigits b' (by simp [member])) (by omega)
    simpa [readDigits, digitsValue, here, isDigit] using tail

end Defragmenter.Decimal
