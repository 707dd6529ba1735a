import Mathlib.Data.Finset.Card
import Mathlib.Data.List.AList
import Mathlib.Data.List.Perm.Basic
import Mathlib.Tactic.Linarith

/-! What every module shares: the ways a call of the library can fail to
return, the C integer conversions the code relies on, and the one rule that
takes an `Except` computation apart. -/
namespace Defragmenter

/-- Why a call does not return normally. -/
inductive Fault where
  /-- `abort()`, reached through `err`, `errSql`, `ERROR` or called directly. -/
  | abort
  /-- An integer division by zero. -/
  | divideByZero
  /-- A receipt record followed to a message that was already freed. -/
  | useAfterFree
  /-- A loop still running after the number of rounds it is observed for. -/
  | diverges
  deriving DecidableEq, Repr

/-- Conversion to `unsigned`. -/
def toUnsigned (z : Int) : Nat := (z % 2 ^ 32).toNat

/-- Conversion to `size_t`. -/
def toSize (z : Int) : Nat := (z % 2 ^ 64).toNat

/-- Conversion of an `unsigned` to `int`. -/
def toInt32 (n : Nat) : Int := Int.bmod n (2 ^ 32)

/-- Conversion of a `uint64_t` to `sqlite3_int64`. -/
def toInt64 (n : Nat) : Int := Int.bmod n (2 ^ 64)

theorem toUnsigned_lt (z : Int) : toUnsigned z < 2 ^ 32 := by
  unfold toUnsigned
  omega

theorem toUnsigned_of_lt {n : Nat} (small : n < 2 ^ 32) : toUnsigned n = n := by
  unfold toUnsigned
  omega

theorem toSize_of_lt {n : Nat} (small : n < 2 ^ 64) : toSize n = n := by
  unfold toSize
  omega

theorem toSize_sub {a b : Nat} (le : b ≤ a) (small : a < 2 ^ 64) :
    toSize ((a : Int) - b) = a - b := by
  unfold toSize
  omega

theorem toInt32_of_lt {n : Nat} (small : n < 2 ^ 31) : toInt32 n = n := by
  exact Int.bmod_eq_of_le (by omega) (by omega)

/-- A sequenced computation returns exactly when its first part returns and
the rest returns from there. -/
theorem bind_ok {x : Except ε α} {f : α → Except ε β} {b : β} :
    (x >>= f) = .ok b ↔ ∃ a, x = .ok a ∧ f a = .ok b := by
  cases x <;> simp [bind, Except.bind]

theorem map_ok {x : Except ε α} {f : α → β} {b : β} :
    x.map f = .ok b ↔ ∃ a, x = .ok a ∧ f a = b := by
  cases x <;> simp [Except.map]

theorem bind_error {x : Except ε α} {f : α → Except ε β} {e : ε} :
    (x >>= f) = .error e ↔ x = .error e ∨ ∃ a, x = .ok a ∧ f a = .error e := by
  cases x <;> simp [bind, Except.bind]

theorem mem_toOption {x : Except ε α} {a : α} : a ∈ x.toOption ↔ x = .ok a := by
  cases x <;> simp [Except.toOption, eq_comm]

theorem pure_ok {a b : α} : (pure a : Except ε α) = .ok b ↔ a = b := by
  simp [pure, Except.pure]

end Defragmenter
