import Mathlib.Data.Finset.Card
import Mathlib.Data.Finset.Range
import Mathlib.Data.List.Basic

/-! Cutting a list into equal pieces and putting the pieces back. A message
of any length is cut at the multiples of `size`; `mosaic` is a buffer in which
only some of the pieces have been written. Writing one more piece at its own
offset adds exactly that piece, so the order of the writes cannot matter. -/
namespace Defragmenter.Tiling

variable {α : Type} {size k : Nat} {blank : α} {whole : List α} {got : Finset Nat}

/-- The number of pieces, counted as C does it: a division that rounds up. -/
def pieceCount (size length : Nat) : Nat := (length + size - 1) / size

/-- Piece `k`, counted from zero. -/
def piece (size : Nat) (whole : List α) (k : Nat) : List α := (whole.drop (k * size)).take size

/-- `data` written over `buffer` from `off` on. -/
def overwrite (buffer : List α) (off : Nat) (data : List α) : List α :=
  buffer.take off ++ data ++ buffer.drop (off + data.length)

/-- The buffer in which the pieces of `got` have been written and nothing else. -/
def mosaic (blank : α) (size : Nat) (whole : List α) (got : Finset Nat) : List α :=
  whole.mapIdx fun i b => if i / size ∈ got then b else blank

theorem lt_pieceCount_iff {length : Nat} (positive : 0 < size) :
    k < pieceCount size length ↔ k * size < length := by
  rw [pieceCount, Nat.lt_iff_add_one_le, Nat.le_div_iff_mul_le positive, Nat.succ_mul]
  omega

theorem le_pieceCount_mul (length : Nat) (positive : 0 < size) :
    length ≤ pieceCount size length * size :=
  Nat.le_of_not_lt fun short =>
    Nat.lt_irrefl _ ((lt_pieceCount_iff positive).mpr short)

theorem pieceCount_le (length : Nat) (positive : 0 < size) : pieceCount size length ≤ length := by
  refine Nat.le_of_not_lt fun more => ?_
  have inside := (lt_pieceCount_iff positive).mp more
  exact Nat.lt_irrefl _ (Nat.lt_of_le_of_lt (Nat.le_mul_of_pos_right length positive) inside)

theorem pieceCount_anti {size' length : Nat} (positive : 0 < size) (le : size ≤ size') :
    pieceCount size' length ≤ pieceCount size length := by
  refine Nat.le_of_not_lt fun more => ?_
  have inside := (lt_pieceCount_iff (Nat.lt_of_lt_of_le positive le)).mp more
  have covered := le_pieceCount_mul length positive
  have := Nat.mul_le_mul_left (pieceCount size length) le
  omega

theorem piece_length : (piece size whole k).length = min size (whole.length - k * size) := by
  simp [piece]

theorem piece_ne_nil (positive : 0 < size) (inside : k < pieceCount size whole.length) :
    piece size whole k ≠ [] := by
  have bound := (lt_pieceCount_iff positive).mp inside
  rw [← List.length_pos_iff, piece_length]
  omega

theorem piece_fits (inside : k * size < whole.length) :
    k * size + (piece size whole k).length ≤ whole.length := by
  rw [piece_length]
  omega

/-- The first pieces together are the front of the list. -/
theorem flatten_pieces (size : Nat) (whole : List α) (k : Nat) :
    ((List.range k).map (piece size whole)).flatten = whole.take (k * size) := by
  induction k with
  | zero => simp
  | succ k ih =>
    rw [List.range_succ, List.map_append, List.flatten_append, ih, Nat.succ_mul, List.take_add]
    simp [piece]

@[simp] theorem mosaic_length : (mosaic blank size whole got).length = whole.length := by
  simp [mosaic]

theorem mosaic_getElem? (i : Nat) :
    (mosaic blank size whole got)[i]? =
      whole[i]?.map fun b => if i / size ∈ got then b else blank := by
  simp [mosaic, List.getElem?_mapIdx]

theorem overwrite_length {buffer data : List α} {off : Nat} (fits : off + data.length ≤ buffer.length) :
    (overwrite buffer off data).length = buffer.length := by
  simp only [overwrite, List.length_append, List.length_take, List.length_drop]
  omega

theorem overwrite_getElem? {buffer data : List α} {off : Nat}
    (fits : off + data.length ≤ buffer.length) (i : Nat) :
    (overwrite buffer off data)[i]? =
      if off ≤ i ∧ i < off + data.length then data[i - off]? else buffer[i]? := by
  have front : (buffer.take off).length = off := by rw [List.length_take]; omega
  rw [overwrite, List.append_assoc, List.getElem?_append, front]
  by_cases before : i < off
  · rw [if_pos before, if_neg (by omega), List.getElem?_take, if_pos before]
  · rw [if_neg before, List.getElem?_append]
    by_cases inside : i - off < data.length
    · rw [if_pos inside, if_pos (by omega)]
    · rw [if_neg inside, if_neg (by omega), List.getElem?_drop]
      congr 1
      omega

/-- Nothing written yet: the buffer is blank throughout. -/
theorem mosaic_empty : mosaic blank size whole ∅ = List.replicate whole.length blank := by
  apply List.ext_getElem?
  intro i
  rw [mosaic_getElem?, List.getElem?_replicate]
  by_cases inside : i < whole.length <;> simp [inside]

/-- Every piece written: the buffer is the whole. -/
theorem mosaic_full (positive : 0 < size)
    (all : ∀ k, k < pieceCount size whole.length → k ∈ got) : mosaic blank size whole got = whole := by
  apply List.ext_getElem?
  intro i
  rw [mosaic_getElem?]
  by_cases inside : i < whole.length
  · have written : i / size ∈ got := by
      apply all
      rw [lt_pieceCount_iff positive]
      exact Nat.lt_of_le_of_lt (Nat.div_mul_le_self i size) inside
    simp [List.getElem?_eq_getElem inside, written]
  · simp [List.getElem?_eq_none (Nat.le_of_not_lt inside)]

/-- The first byte of a piece tells whether the piece was written, unless it
equals the blank. -/
theorem mosaic_head (positive : 0 < size) (inside : k * size < whole.length) :
    (mosaic blank size whole got)[k * size]? = some (if k ∈ got then whole[k * size] else blank) := by
  rw [mosaic_getElem?, List.getElem?_eq_getElem inside, Nat.mul_div_cancel k positive]
  rfl

/-- Writing piece `k` at its own offset adds exactly that piece. -/
theorem overwrite_mosaic (positive : 0 < size) (inside : k * size < whole.length) :
    overwrite (mosaic blank size whole got) (k * size) (piece size whole k) =
      mosaic blank size whole (insert k got) := by
  have fits := piece_fits inside
  apply List.ext_getElem?
  intro i
  rw [overwrite_getElem? (by simpa using fits), mosaic_getElem?, mosaic_getElem?]
  by_cases ours : k * size ≤ i ∧ i < k * size + (piece size whole k).length
  · have short := ours.2
    rw [piece_length] at short
    have index : i / size = k := by
      rw [Nat.div_eq_iff positive]
      omega
    have bound : i - k * size < size := by omega
    rw [if_pos ours, piece, List.getElem?_take, if_pos bound, List.getElem?_drop,
      Nat.add_sub_cancel' ours.1]
    simp [index]
  · rw [if_neg ours]
    by_cases outside : i < whole.length
    · have other : i / size ≠ k := by
        intro same
        rw [Nat.div_eq_iff positive] at same
        rw [piece_length] at ours
        omega
      simp [List.getElem?_eq_getElem outside, other]
    · simp [List.getElem?_eq_none (Nat.le_of_not_lt outside)]

end Defragmenter.Tiling
