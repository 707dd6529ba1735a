import Defragmenter.Basics
import Defragmenter.Decimal

/-! `marker.c`: the marker in front of every fragment, its printer and its
hand-written parser, and how long what is printed can be. -/
namespace Defragmenter.Marker
open Decimal

/-- ZERO WIDTH SPACE in UTF-8. -/
def markerChar : List UInt8 := [0xe2, 0x80, 0x8b]

/-- The separator `'|'`. -/
def bar : UInt8 := 124

def szMarkerChar : Nat := 3
def szTm : Nat := 13
def szIntMin : Nat := 1
def szIntMax : Nat := 10
def nInts : Nat := 4

def numDigits (i : Nat) : Nat :=
  if i / 10 = 0 then 1 else numDigits (i / 10) + 1
termination_by i
decreasing_by omega

def markerMaxSizeBytes (numParts msgSize : Nat) : Nat :=
  let numPartsDigits := numDigits numParts
  let msgSizeDigits := numDigits msgSize
  szMarkerChar + szTm + 1 + numPartsDigits + 1 + numPartsDigits + 1 + msgSizeDigits + 1 +
    msgSizeDigits + szMarkerChar

/-- The bytes `sprintf` leaves in the marker buffer, without the final zero. -/
def markerPrint (id partNo numParts off sz : Nat) : List UInt8 :=
  markerChar ++ (decimal id ++ bar :: (decimal partNo ++ bar :: (decimal numParts ++ bar ::
    (decimal off ++ bar :: (decimal sz ++ markerChar)))))

def isMarkerChar (s : Memory) (p : Nat) : Bool :=
  s p == 0xe2 && s (p + 1) == 0x80 && s (p + 2) == 0x8b

/-- The digit loop of one field: at most `n` more bytes, from `i` on, and none
at or past `length`. -/
def fieldSize (message : Memory) (length : Nat) : Nat → Nat → Nat
  | 0, _ => 0
  | n + 1, i =>
    if i < length ∧ isdigit (message i) = true then fieldSize message length n (i + 1) + 1 else 0

/-- The loop over the last `n` fields, the first of them at `p`: offset and
size of each. The field before the closing `markerChar` is checked against all
three of its bytes although only the first is known to lie inside the message. -/
def parseFields (message : Memory) (length : Nat) : Nat → Nat → Option (List (Nat × Nat))
  | 0, _ => some []
  | n + 1, p =>
    let sz := fieldSize message length szIntMax p
    if sz = 0 ∨ length ≤ p + sz + 1 ∨
        (if n ≠ 0 then message (p + sz) ≠ bar else isMarkerChar message (p + sz) = false) then none
    else (parseFields message length n (p + sz + 1)).map ((p, sz) :: ·)

def markerParseFields (message : Memory) (length : Nat) : Option (List (Nat × Nat)) :=
  if length ≤ szMarkerChar + szTm + nInts * (1 + szIntMin) + szMarkerChar then none
  else if isMarkerChar message 0 = false ∨ message (szMarkerChar + szTm) ≠ bar then none
  else if (List.range szTm).any fun i => !isdigit (message (szMarkerChar + i)) then none
  else parseFields message length nInts (szMarkerChar + szTm + 1)

def markerExists (message : Memory) (length : Nat) : Bool :=
  (markerParseFields message length).isSome

/-- `strtoul` and `strtoull` alike saturate at 64 bits. -/
def strtoul (str : Memory) (length off : Nat) : Nat :=
  min (readDigits str length off 0) (2 ^ 64 - 1)

def parseUInt32 (str : Memory) (length off : Nat) : Nat := strtoul str length off % 2 ^ 32

def parseUInt64 (str : Memory) (length off : Nat) : Nat := strtoul str length off

/-- What `markerParse` hands back through its pointers, and the size it
returns. The size is at most 63, so its `uint8_t` never wraps. -/
structure Fields where
  id : Nat
  partNo : Nat
  numParts : Nat
  off : Nat
  sz : Nat
  markerSize : Nat
  deriving DecidableEq, Repr

def markerParse (message : Memory) (length : Nat) : Option Fields :=
  match markerParseFields message length with
  | some [(partNo, _), (numParts, _), (off, _), (sz, szSize)] =>
    some {
      id := parseUInt64 message length szMarkerChar
      partNo := parseUInt32 message length partNo
      numParts := parseUInt32 message length numParts
      off := parseUInt32 message length off
      sz := parseUInt32 message length sz
      markerSize := sz + szSize + szMarkerChar }
  | _ => none

/-! ## Sizes -/

theorem decimal_length (n : Nat) : (decimal n).length = numDigits n := by
  induction n using numDigits.induct with
  | case1 n small =>
    rw [numDigits, if_pos small, decimal, if_pos (by omega)]
    rfl
  | case2 n large ih =>
    rw [numDigits, if_neg large, decimal, if_neg (by omega), List.length_append, ih]
    rfl

theorem numDigits_pos (n : Nat) : 0 < numDigits n :=
  decimal_length n ▸ decimal_length_pos n

theorem numDigits_mono {n m : Nat} (le : n ≤ m) : numDigits n ≤ numDigits m := by
  simpa only [← decimal_length] using decimal_length_mono le

theorem numDigits_le_iff (n : Nat) {k : Nat} (positive : 0 < k) : numDigits n ≤ k ↔ n < 10 ^ k := by
  rw [← decimal_length]
  exact decimal_length_le_iff n positive

/-- Exactly the numbers from `10 ^ k` below `10 ^ (k + 1)` have `k + 1` digits. -/
theorem numDigits_eq_iff (n k : Nat) :
    numDigits n = k + 1 ↔ (k = 0 ∨ 10 ^ k ≤ n) ∧ n < 10 ^ (k + 1) := by
  have upper := numDigits_le_iff n (k := k + 1) (by omega)
  have positive := numDigits_pos n
  rcases Nat.eq_zero_or_pos k with rfl | positive'
  · omega
  · have lower := numDigits_le_iff n positive'
    omega

/-- A 32-bit number has at most ten digits. -/
theorem numDigits_le_ten {n : Nat} (small : n < 2 ^ 32) : numDigits n ≤ 10 :=
  (numDigits_le_iff n (by omega)).mpr (by omega)

theorem numDigits_id {id : Nat} (lower : 10 ^ 12 ≤ id) (upper : id < 10 ^ 13) :
    numDigits id = szTm :=
  (numDigits_eq_iff id 12).mpr ⟨.inr lower, upper⟩

theorem markerPrint_length (id partNo numParts off sz : Nat) :
    (markerPrint id partNo numParts off sz).length =
      numDigits id + numDigits partNo + numDigits numParts + numDigits off + numDigits sz + 10 := by
  simp only [markerPrint, markerChar, List.length_append, List.length_cons, List.length_nil,
    decimal_length]
  omega

theorem markerMaxSizeBytes_eq (numParts msgSize : Nat) :
    markerMaxSizeBytes numParts msgSize = 2 * numDigits numParts + 2 * numDigits msgSize + 23 := by
  simp only [markerMaxSizeBytes, szMarkerChar, szTm]
  omega

/-- The `markerMaxSizeEver` that `initialize` sets, `INT_MAX` being `2 ^ 31 - 1`. -/
theorem markerMaxSizeEver_eq : markerMaxSizeBytes (2 ^ 31 - 1) (2 ^ 31 - 1) = 63 := by
  decide +kernel

theorem markerMaxSizeBytes_le {numParts msgSize : Nat} (parts : numParts < 2 ^ 32)
    (size : msgSize < 2 ^ 32) : markerMaxSizeBytes numParts msgSize ≤ 63 := by
  have := numDigits_le_ten parts
  have := numDigits_le_ten size
  rw [markerMaxSizeBytes_eq]
  omega

/-! ## What the parser looks for -/

theorem isMarkerChar_iff {s : Memory} {p : Nat} : isMarkerChar s p = true ↔ Shows s p markerChar := by
  simp [isMarkerChar, markerChar, Shows, and_assoc]

theorem fieldSize_shows {message : Memory} {length n p : Nat} {digits : List UInt8} {stop : UInt8}
    (shown : Shows message p (digits ++ [stop])) (allDigits : ∀ b ∈ digits, isdigit b = true)
    (ends : isdigit stop = false) (fits : digits.length ≤ n) (inside : p + digits.length ≤ length) :
    fieldSize message length n p = digits.length := by
  induction digits generalizing p n with
  | nil =>
    simp only [List.nil_append, Shows, and_true] at shown
    cases n <;> simp [fieldSize, shown, ends]
  | cons b digits ih =>
    simp only [List.length_cons] at fits inside
    obtain ⟨n, rfl⟩ := Nat.exists_eq_succ_of_ne_zero (show n ≠ 0 by omega)
    obtain ⟨here, rest⟩ := shown
    have tail := ih (n := n) rest (fun b' member => allDigits b' (by simp [member])) (by omega) (by omega)
    have isDigit : isdigit b = true := allDigits b (by simp)
    have bound : p < length := by omega
    simp [fieldSize, here, isDigit, bound, tail]

end Defragmenter.Marker
